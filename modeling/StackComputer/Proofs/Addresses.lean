import StackComputer.Memory

/-!
# Addresses

Memory does not tell words apart that agree in their 15 address bits, and
neither do the addresses that follow them.
-/

namespace StackComputer

namespace Word

@[simp] theorem address_address (w : Word) : w.address.address = w.address := by
  apply BitVec.eq_of_toNat_eq
  simp only [toNat_address]
  omega

theorem toNat_lt_of_address {a : Word} (h : a.address = a) : a.toNat < 0x8000 := by
  rw [← h, toNat_address]
  omega

theorem address_of_le {a : Word} (h : a.toNat ≤ 0x7FFF) : a.address = a := by
  apply BitVec.eq_of_toNat_eq
  rw [toNat_address]
  omega

theorem address_eq_iff {a b : Word} :
    a.address = b.address ↔ a.toNat % 0x8000 = b.toNat % 0x8000 := by
  rw [← BitVec.toNat_inj, toNat_address, toNat_address]

theorem address_add_one_congr {a b : Word} (h : a.address = b.address) :
    (a + 1).address = (b + 1).address := by
  rw [address_eq_iff] at h ⊢
  simp only [BitVec.toNat_add, BitVec.ofNat_eq_ofNat, BitVec.toNat_ofNat]
  omega

end Word

namespace Memory

theorem read_congr (m : Memory) {a b : Word} (h : a.address = b.address) :
    m.read a = m.read b := by
  simp only [read, cell_eq_iff.mpr h]

theorem readBlock_congr (m : Memory) {a b : Word} (h : a.address = b.address) (n : Nat) :
    m.readBlock a n = m.readBlock b n := by
  induction n generalizing a b with
  | zero => rfl
  | succ n ih =>
      rw [readBlock, readBlock, m.read_congr h, ih (Word.address_add_one_congr h)]

@[simp] theorem length_readBlock (m : Memory) (a : Word) (n : Nat) :
    (m.readBlock a n).length = n := by
  induction n generalizing a with
  | zero => rfl
  | succ n ih => rw [readBlock, List.length_cons, ih]

end Memory

end StackComputer
