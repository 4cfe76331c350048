import StackComputer.Proofs.LiteralGrammar

/-!
# Literals read exactly

A text reads as a number just when it writes that number between blanks. Leading
zeros do not count, a number printed in octal is read back, and a minus sign
before a literal, with blanks around it or not, negates it.
-/

namespace StackComputer

namespace Text

theorem digits_zeros {radix : Nat} (h : 0 < radix) (k : Nat) :
    Digits radix (List.replicate (k + 1) '0') 0 := by
  have hzero : IsDigit radix '0' 0 := ⟨h, rfl⟩
  induction k with
  | zero => exact .single hzero
  | succ k ih =>
      rw [List.replicate_succ']
      simpa using ih.concat hzero

theorem Digits.zeros {radix n : Nat} {t : Text} (h : Digits radix t n) (k : Nat) :
    Digits radix (List.replicate k '0' ++ t) n := by
  induction h with
  | single h =>
      cases k with
      | zero => exact .single h
      | succ k => simpa using (digits_zeros (Nat.zero_lt_of_lt h.1) k).concat h
  | concat ht h ih =>
      rw [← List.append_assoc]
      exact ih.concat h

end Text

namespace Assembler

open Text

variable {t : Text} {n : Nat} {z : Int}

/-- A literal, or its negation: a minus sign before it, perhaps with blanks
between the two. -/
inductive SignedLiteral : Text → Int → Prop
  | plain {t : Text} {n : Nat} (h : LiteralText t n) : SignedLiteral t n
  | negated {x t : Text} {n : Nat} (hx : ∀ c ∈ x, isBlank c = true) (h : LiteralText t n) :
      SignedLiteral ('-' :: x ++ t) (-n)

/-- A literal with zeros added before its digits. -/
def withZeros (k : Nat) : Text → Text
  | '#' :: digits => '#' :: (List.replicate k '0' ++ digits)
  | '$' :: digits => '$' :: (List.replicate k '0' ++ digits)
  | digits => List.replicate k '0' ++ digits

theorem withZeros_digits (h : Digits 8 t n) (k : Nat) :
    withZeros k t = List.replicate k '0' ++ t := by
  have hplain := radixOf_digits h
  fun_cases withZeros k t with
  | case1 digits => cases hplain
  | case2 digits => cases hplain
  | case3 => rfl

theorem LiteralText.withZeros (h : LiteralText t n) (k : Nat) :
    LiteralText (withZeros k t) n := by
  cases h with
  | octal h hn =>
      rw [withZeros_digits h]
      exact .octal (h.zeros k) hn
  | decimal h hn => exact .decimal (h.zeros k) hn
  | hexadecimal h hn => exact .hexadecimal (h.zeros k) hn

theorem LiteralText.ne_nil (h : LiteralText t n) : t ≠ [] := by
  cases h with
  | octal h => exact (mem_digits (by decide) h).1
  | decimal | hexadecimal => exact List.cons_ne_nil _ _

theorem LiteralText.ne_minus (h : LiteralText t n) (rest : Text) : t ≠ '-' :: rest := by
  rintro rfl
  exact absurd (h.isValuePart '-' List.mem_cons_self) (by decide)

/-- Where no blank ends the text, blanks stand only before its trimmed form. -/
theorem eq_append_trim (hright : trimRight t = t) (h : LiteralText (trim t) n) :
    ∃ x, t = x ++ trim t ∧ ∀ c ∈ x, isBlank c = true := by
  obtain ⟨x, y, ht, hx, hy, -⟩ := trim_eq_iff.mp (rfl : trim t = trim t)
  have hsqueeze : squeeze (trim t) ≠ [] := (squeeze_eq_self h.solid).symm ▸ h.ne_nil
  have htrim : trimRight (trim t) = trim t := by
    conv_lhs => rw [← trimLeft_trim]
    exact trim_trim t
  refine ⟨x, ?_, hx⟩
  calc
    t = trimRight (x ++ trim t ++ y) := by rw [← ht, hright]
    _ = x ++ trim t := by rw [trimRight_append_blanks hy, trimRight_append hsqueeze, htrim]

theorem signedLiteral?_eq_some_iff : signedLiteral? t = some z ↔ SignedLiteral (trim t) z := by
  rw [signedLiteral?]
  have htight := tight_trim t
  generalize trim t = u at htight ⊢
  split
  · next rest =>
      have hright : trimRight rest = rest := by
        have hcons := trim_append_cons (show isBlank '-' = false from rfl) [] rest
        exact (List.cons.inj (hcons.symm.trans htight.trim_eq)).2
      constructor
      · intro h
        cases hread : literal? rest with
        | none => simp [hread] at h
        | some n =>
            obtain rfl : -(n : Int) = z := by simpa [hread] using h
            have hliteral := literal?_eq_some_iff.mp hread
            obtain ⟨x, hrest, hx⟩ := eq_append_trim hright hliteral
            have hsigned := SignedLiteral.negated hx hliteral
            rwa [List.cons_append, ← hrest] at hsigned
      · intro h
        cases h with
        | plain h => exact absurd rfl (h.ne_minus rest)
        | @negated x t n hx h =>
            have hread : literal? (x ++ t) = some n := by
              rw [literal?_eq_some_iff, trim_append_left hx, (tight_of_solid h.solid).trim_eq]
              exact h
            simp [hread]
  · next hother =>
      constructor
      · intro h
        cases hread : literal? u with
        | none => simp [hread] at h
        | some n =>
            obtain rfl : (n : Int) = z := by simpa [hread] using h
            rw [literal?_eq_some_iff, htight.trim_eq] at hread
            exact .plain hread
      · intro h
        cases h with
        | plain h => simp [h.literal?]
        | @negated x t n hx h => exact absurd rfl (hother (x ++ t))

/-- A text reads as a number if, without the blanks at its ends, it is a literal of
that number, and otherwise not at all. Zeros before the digits make no difference,
and every number of 64 bits is read back from its octal form, padded or not. Signed
reading takes just these texts and their negations. -/
theorem literals_read_exactly (t : Text) :
    (∀ n, literal? t = some n ↔ ∃ u, IsTrimmed t u ∧ LiteralText u n) ∧
    (∀ n, LiteralText t n → ∀ k, literal? (withZeros k t) = some n) ∧
    (∀ n < 2 ^ 64,
      literal? (octal n) = some n ∧ ∀ width, literal? (octalPadded width n) = some n) ∧
    ∀ z, signedLiteral? t = some z ↔ ∃ u, IsTrimmed t u ∧ SignedLiteral u z := by
  simp only [← trim_eq_iff, exists_eq_left']
  refine ⟨fun n => literal?_eq_some_iff, fun n h k => (h.withZeros k).literal?, ?_,
    fun z => signedLiteral?_eq_some_iff⟩
  exact fun n hn => ⟨literal?_octal hn, fun width => literal?_octalPadded width hn⟩

theorem literals_read_exactly_largest :
    LiteralText "$fF".toList 0xFF ∧ literal? "$000fF".toList = some 0xFF ∧
    2 ^ 64 - 1 < 2 ^ 64 ∧
    literal? (octalPadded 40 (2 ^ 64 - 1)) = some (2 ^ 64 - 1) := by
  obtain ⟨-, hzeros, hoctal, -⟩ := literals_read_exactly "$fF".toList
  have hliteral : LiteralText "$fF".toList 0xFF :=
    .hexadecimal ((numeral?_eq_some_iff (by decide)).mp (by decide)) (by decide)
  exact ⟨hliteral, hzeros 0xFF hliteral 3, by decide, (hoctal _ (by decide)).2 40⟩

end Assembler

end StackComputer
