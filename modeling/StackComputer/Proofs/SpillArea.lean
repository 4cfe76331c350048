import StackComputer.Machine.Stack
import StackComputer.Proofs.Addresses

/-!
# The spill area

Cells that do not fit in the registers are stored downward from the spill
base, wrapping past address zero to the top of memory. The last cell spilled
lies at the spill pointer.
-/

namespace StackComputer

/-- The spill pointer while `n` cells lie in memory. -/
def spillPointer (n : Nat) : Word := (spillBase - BitVec.ofNat 16 n).address

theorem toNat_spillPointer (n : Nat) :
    (spillPointer n).toNat = (0x9000 - n % 0x8000) % 0x8000 := by
  simp only [spillPointer, spillBase, Word.toNat_address, BitVec.toNat_sub,
    BitVec.ofNat_eq_ofNat, BitVec.toNat_ofNat]
  omega

@[simp] theorem spillPointer_zero : spillPointer 0 = spillBase := rfl

@[simp] theorem address_spillPointer (n : Nat) : (spillPointer n).address = spillPointer n :=
  Word.address_address _

theorem spillPointer_sub_one (n : Nat) : (spillPointer n - 1).address = spillPointer (n + 1) := by
  apply BitVec.eq_of_toNat_eq
  simp only [Word.toNat_address, BitVec.toNat_sub, BitVec.ofNat_eq_ofNat, BitVec.toNat_ofNat,
    toNat_spillPointer]
  omega

theorem spillPointer_add_one (n : Nat) : (spillPointer (n + 1) + 1).address = spillPointer n := by
  apply BitVec.eq_of_toNat_eq
  simp only [Word.toNat_address, BitVec.toNat_add, BitVec.ofNat_eq_ofNat, BitVec.toNat_ofNat,
    toNat_spillPointer]
  omega

theorem spillPointer_ne {i j : Nat} (hij : i < j) (hj : j < i + 0x8000) :
    spillPointer i ≠ spillPointer j := by
  rw [Ne, ← BitVec.toNat_inj, toNat_spillPointer, toNat_spillPointer]
  omega

/-- Whether an address selects one of the `n` cells just below the spill base. -/
def SpillCell (n : Nat) (a : Word) : Prop := ∃ j, 1 ≤ j ∧ j ≤ n ∧ a.address = spillPointer j

namespace Memory

/-- The last `n` cells spilled, the latest first. -/
def spilled (m : Memory) (n : Nat) : List Word := m.readBlock (spillPointer n) n

@[simp] theorem spilled_zero (m : Memory) : m.spilled 0 = [] := rfl

theorem spilled_succ (m : Memory) (n : Nat) :
    m.spilled (n + 1) = m.read (spillPointer (n + 1)) :: m.spilled n := by
  have haddr : (spillPointer (n + 1) + 1).address = (spillPointer n).address := by
    rw [spillPointer_add_one, address_spillPointer]
  rw [spilled, readBlock, m.readBlock_congr haddr, spilled]

@[simp] theorem length_spilled (m : Memory) (n : Nat) : (m.spilled n).length = n :=
  m.length_readBlock _ _

theorem spilled_write (m : Memory) (w : Word) {n k : Nat} (hnk : n < k) (hk : k ≤ 0x8000) :
    (m.write (spillPointer k) w).spilled n = m.spilled n := by
  induction n with
  | zero => rfl
  | succ n ih =>
      have hne : spillPointer k ≠ spillPointer (n + 1) :=
        (spillPointer_ne hnk (by omega)).symm
      rw [spilled_succ, spilled_succ, ih (by omega), read_write, if_neg (by simpa using hne)]

/-- A new cell lies in front of those spilled before it, as long as it does
not come round to the first of them. -/
theorem spilled_write_succ (m : Memory) (w : Word) {n : Nat} (hn : n < 0x8000) :
    (m.write (spillPointer (n + 1)) w).spilled (n + 1) = w :: m.spilled n := by
  rw [spilled_succ, read_write, if_pos rfl, spilled_write m w (Nat.lt_succ_self n) hn]

/-- The two memories differ at most in the `n` cells just below the spill base. -/
def SameBut (n : Nat) (m m' : Memory) : Prop := ∀ a, ¬ SpillCell n a → m'.read a = m.read a

theorem SameBut.refl (n : Nat) (m : Memory) : SameBut n m m := fun _ _ => rfl

theorem SameBut.trans {n : Nat} {m₁ m₂ m₃ : Memory} (h₁ : SameBut n m₁ m₂)
    (h₂ : SameBut n m₂ m₃) : SameBut n m₁ m₃ :=
  fun a ha => (h₂ a ha).trans (h₁ a ha)

theorem sameBut_write (m : Memory) (w : Word) {j n : Nat} (hpos : 1 ≤ j) (hjn : j ≤ n) :
    SameBut n m (m.write (spillPointer j) w) := by
  intro a ha
  rw [read_write, if_neg]
  intro haddr
  exact ha ⟨j, hpos, hjn, by rw [← haddr, address_spillPointer]⟩

end Memory

end StackComputer
