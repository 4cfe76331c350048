/-!
# Words

The machine moves 16-bit words and, high word first, 32-bit doublewords.
Devices transfer single bytes.
-/

namespace StackComputer

abbrev Byte := BitVec 8

abbrev Word := BitVec 16

abbrev Dword := BitVec 32

namespace Dword

def join (high low : Word) : Dword := BitVec.ofNat 32 (high.toNat * 0x10000 + low.toNat)

def high (d : Dword) : Word := BitVec.ofNat 16 (d.toNat / 0x10000)

def low (d : Dword) : Word := BitVec.ofNat 16 d.toNat

theorem toNat_join (h l : Word) : (join h l).toNat = h.toNat * 0x10000 + l.toNat := by
  simp only [join, BitVec.toNat_ofNat]
  omega

@[simp] theorem high_join (h l : Word) : (join h l).high = h := by
  apply BitVec.eq_of_toNat_eq
  simp only [high, toNat_join, BitVec.toNat_ofNat]
  omega

@[simp] theorem low_join (h l : Word) : (join h l).low = l := by
  apply BitVec.eq_of_toNat_eq
  simp only [low, toNat_join, BitVec.toNat_ofNat]
  omega

@[simp] theorem join_high_low (d : Dword) : join d.high d.low = d := by
  apply BitVec.eq_of_toNat_eq
  simp only [toNat_join, high, low, BitVec.toNat_ofNat]
  omega

end Dword

namespace Word

/-- The 15 address bits of a word. -/
def address (w : Word) : Word := w &&& 0x7FFF

theorem toNat_address (w : Word) : w.address.toNat = w.toNat % 0x8000 := by
  simp only [address, BitVec.toNat_and]
  exact Nat.and_two_pow_sub_one_eq_mod w.toNat 15

end Word

end StackComputer
