import StackComputer.Text.Bytes

/-!
# Lossy decoding

Bytes are decoded character by character. Where no character can be read, the
longest start of one that is there becomes a replacement character, or a single
byte if not even that starts one.
-/

namespace StackComputer.Text

/-- Some bytes of a character, from its first one on. -/
def Starts (bs : List Byte) : Prop := bs ≠ [] ∧ ∃ c, bs <+: charBytes c

/-- A part of some bytes that is replaced as a whole, with those after it. -/
structure Broken (part rest : List Byte) : Prop where
  unreadable : ∀ c, ¬charBytes c <+: part ++ rest
  start_or_single : Starts part ∨ part.length = 1
  longest : ∀ bs, bs <+: part ++ rest → Starts bs → bs.length ≤ part.length

namespace Lead

def next (l : Lead) (b : Byte) : Lead :=
  ⟨l.following - 1, 0x80, 0xBF, l.bits * 0x40 + b.toNat % 0x40⟩

/-- The byte continues the character. -/
def Takes (l : Lead) (b : Byte) : Prop := l.following ≠ 0 ∧ l.least ≤ b ∧ b ≤ l.greatest

instance (l : Lead) (b : Byte) : Decidable (l.Takes b) := inferInstanceAs (Decidable (_ ∧ _))

/-- What is open after some more bytes, if they all continue the character. -/
def run (l : Lead) : List Byte → Option Lead
  | [] => some l
  | b :: bs => if l.Takes b then (l.next b).run bs else none

variable {l l' : Lead} {b : Byte} {bs more : List Byte}

end Lead

theorem toNat_ofNat {n : Nat} (h : n < 0xD800 ∨ 0xDFFF < n ∧ n < 0x110000) :
    (Char.ofNat n).toNat = n := by
  rw [Char.ofNat, dif_pos h]
  rfl

namespace Lead

variable {n bits : Nat} {least greatest : Byte} {l' : Lead} {bs : List Byte}

section

variable {P : Prop} [Decidable P] {b : Byte} {y : Nat}

end

end Lead

section

variable {b : Byte} {l l' : Lead} {used rest : List Byte} {c : Char}

theorem Broken.ne_nil {part : List Byte} (h : Broken part rest) : part ≠ [] := by
  rcases h.start_or_single with hstarts | hsingle
  · exact hstarts.1
  · rintro rfl
    cases hsingle

end

/-! ## Decoding -/

end StackComputer.Text
