import StackComputer.Text
import StackComputer.Word

/-!
# Text as bytes

UTF-8, one character at a time. Decoding puts the replacement character for
each longest start of a character that the bytes break off.
-/

namespace StackComputer.Text

def charBytes (c : Char) : List Byte :=
  (String.utf8EncodeChar c).map UInt8.toBitVec

def toBytes (t : Text) : List Byte := t.flatMap charBytes

def replacement : Char := '\ufffd'

/-- What the first byte of a character leaves open: how many bytes follow, the
range of the first of them, and the bits it gives. -/
structure Lead where
  following : Nat
  least : Byte
  greatest : Byte
  bits : Nat
deriving DecidableEq, Repr

def lead? (b : Byte) : Option Lead :=
  if b < 0x80 then some ⟨0, 0x80, 0xBF, b.toNat⟩
  else if b < 0xC2 then none
  else if b < 0xE0 then some ⟨1, 0x80, 0xBF, b.toNat % 0x20⟩
  else if b = 0xE0 then some ⟨2, 0xA0, 0xBF, 0⟩
  else if b = 0xED then some ⟨2, 0x80, 0x9F, 0xD⟩
  else if b < 0xF0 then some ⟨2, 0x80, 0xBF, b.toNat % 0x10⟩
  else if b = 0xF0 then some ⟨3, 0x90, 0xBF, 0⟩
  else if b < 0xF4 then some ⟨3, 0x80, 0xBF, b.toNat % 0x08⟩
  else if b = 0xF4 then some ⟨3, 0x80, 0x8F, 4⟩
  else none

/-- Reads the open part of a character: the character, or the replacement
character if the bytes break it off, and the bytes after it. -/
def readOpen (l : Lead) : List Byte → Char × List Byte
  | [] => if l.following = 0 then (Char.ofNat l.bits, []) else (replacement, [])
  | b :: bs =>
    if l.following = 0 then (Char.ofNat l.bits, b :: bs)
    else if l.least ≤ b ∧ b ≤ l.greatest then
      readOpen ⟨l.following - 1, 0x80, 0xBF, l.bits * 0x40 + b.toNat % 0x40⟩ bs
    else (replacement, b :: bs)

theorem readOpen_length (l : Lead) (bs : List Byte) : (readOpen l bs).2.length ≤ bs.length := by
  induction bs generalizing l with
  | nil => by_cases h : l.following = 0 <;> simp [readOpen, h]
  | cons b bs ih =>
    by_cases h : l.following = 0
    · simp [readOpen, h]
    · by_cases hb : l.least ≤ b ∧ b ≤ l.greatest
      · simp only [readOpen, h, hb, if_false, and_self, if_true, List.length_cons]
        exact Nat.le_succ_of_le (ih _)
      · simp [readOpen, h, hb]

def ofBytes : List Byte → Text
  | [] => []
  | b :: bs =>
    match lead? b with
    | none => replacement :: ofBytes bs
    | some l => (readOpen l bs).1 :: ofBytes (readOpen l bs).2
termination_by bs => bs.length
decreasing_by
  · simp
  · have := readOpen_length l bs
    simp only [List.length_cons]
    omega

end StackComputer.Text
