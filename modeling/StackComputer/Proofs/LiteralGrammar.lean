import Mathlib
import StackComputer.Proofs.LabelOperand

/-!
# The grammar of literals

A literal is one or more digits, perhaps after a mark that announces their
radix. What the reader takes for a literal, and the number it reads, is what
this grammar derives.
-/

namespace StackComputer

namespace Text

/-! ## Digits -/

/-- A character writes a digit below the radix. Letters may have either case. -/
def IsDigit (radix : Nat) (c : Char) (d : Nat) : Prop :=
  d < radix ∧ c.toUpper = d.digitChar.toUpper

/-- One or more digits and the number they write. -/
inductive Digits (radix : Nat) : Text → Nat → Prop
  | single {c : Char} {d : Nat} (h : IsDigit radix c d) : Digits radix [c] d
  | concat {t : Text} {n : Nat} {c : Char} {d : Nat} (ht : Digits radix t n)
      (h : IsDigit radix c d) : Digits radix (t ++ [c]) (n * radix + d)

variable {radix : Nat} {c : Char} {t : Text} {n : Nat}

theorem digitValue_eq (c : Char) : digitValue c =
    if 48 ≤ c.toNat ∧ c.toNat ≤ 57 then c.toNat - 48
    else if 97 ≤ c.toNat ∧ c.toNat ≤ 122 then c.toNat - 87
    else if 65 ≤ c.toNat ∧ c.toNat ≤ 90 then c.toNat - 55
    else 36 := by
  have hle : ∀ a b : Char, a ≤ b ↔ a.toNat ≤ b.toNat := fun _ _ => Iff.rfl
  simp only [digitValue, hle, Char.reduceToNat]
  split_ifs <;> omega

theorem toNat_toUpper_digitChar {d : Nat} (hd : d < 16) :
    d.digitChar.toUpper.toNat = if d < 10 then 48 + d else 55 + d := by
  have hall : ∀ d < 16, d.digitChar.toUpper.toNat = if d < 10 then 48 + d else 55 + d := by decide
  exact hall d hd

theorem isDigit_iff (hradix : radix ≤ 16) {d : Nat} :
    IsDigit radix c d ↔ isDigitIn radix c = true ∧ digitValue c = d := by
  have hvalue := digitValue_eq c
  rw [IsDigit, isDigitIn, decide_eq_true_iff, ← Char.toNat_inj]
  constructor
  · rintro ⟨hd, hc⟩
    rw [toNat_toUpper_digitChar (by omega)] at hc
    have heq : digitValue c = d := by
      rw [hvalue]
      rcases toNat_toUpper c with ⟨hlower, hupper⟩ | ⟨hlower, hupper⟩ <;> split_ifs at * <;> omega
    exact ⟨heq ▸ hd, heq⟩
  · rintro ⟨hd, rfl⟩
    refine ⟨hd, ?_⟩
    rw [toNat_toUpper_digitChar (by omega)]
    rcases toNat_toUpper c with ⟨hlower, hupper⟩ | ⟨hlower, hupper⟩ <;> split_ifs at * <;> omega

theorem digits_ofDigits (hradix : radix ≤ 16) (hne : t ≠ [])
    (h : ∀ c ∈ t, isDigitIn radix c = true) : Digits radix t (ofDigits radix 0 t) := by
  induction t using List.reverseRecOn with
  | nil => exact absurd rfl hne
  | append_singleton t c ih =>
      have hc : IsDigit radix c (digitValue c) :=
        (isDigit_iff hradix).mpr ⟨h c (by simp), rfl⟩
      rw [ofDigits_append]
      by_cases ht : t = []
      · subst ht
        simpa [ofDigits] using Digits.single hc
      · exact (ih ht fun d hd => h d (by simp [hd])).concat hc

theorem numeral?_eq_some_iff (hradix : radix ≤ 16) :
    numeral? radix t = some n ↔ Digits radix t n := by
  constructor
  · intro h
    rw [numeral?, Option.ite_none_right_eq_some, Bool.and_eq_true, List.all_eq_true] at h
    obtain ⟨⟨hne, hdigits⟩, hn⟩ := h
    obtain rfl := Option.some.inj hn
    exact digits_ofDigits hradix (by simpa using hne) hdigits
  · intro h
    induction h with
    | single h =>
        obtain ⟨hdigit, rfl⟩ := (isDigit_iff hradix).mp h
        simp [numeral?, hdigit, ofDigits]
    | concat ht h ih =>
        obtain ⟨hdigit, rfl⟩ := (isDigit_iff hradix).mp h
        rw [numeral?, Option.ite_none_right_eq_some, Bool.and_eq_true, List.all_eq_true] at ih
        obtain ⟨⟨-, hdigits⟩, hn⟩ := ih
        obtain rfl := Option.some.inj hn
        simp [numeral?, ofDigits_append, hdigit, List.all_eq_true.mpr hdigits]
        rfl

theorem mem_digits (hradix : radix ≤ 16) (h : Digits radix t n) :
    t ≠ [] ∧ ∀ c ∈ t, isDigitIn 16 c = true := by
  rw [← numeral?_eq_some_iff hradix, numeral?, Option.ite_none_right_eq_some, Bool.and_eq_true,
    List.all_eq_true] at h
  obtain ⟨⟨hne, hdigits⟩, -⟩ := h
  refine ⟨by simpa using hne, fun c hc => decide_eq_true ?_⟩
  exact (of_decide_eq_true (hdigits c hc)).trans_le hradix

end Text

namespace Assembler

open Text

variable {t : Text} {n : Nat}

/-! ## Literals -/

/-- Octal digits, decimal ones after `#` or hexadecimal ones after `$`, of a
number that fits in 64 bits. -/
inductive LiteralText : Text → Nat → Prop
  | octal {t : Text} {n : Nat} (h : Digits 8 t n) (hn : n < 2 ^ 64) : LiteralText t n
  | decimal {t : Text} {n : Nat} (h : Digits 10 t n) (hn : n < 2 ^ 64) : LiteralText ('#' :: t) n
  | hexadecimal {t : Text} {n : Nat} (h : Digits 16 t n) (hn : n < 2 ^ 64) :
      LiteralText ('$' :: t) n

/-- The characters of literals and symbols. -/
def isValuePart (c : Char) : Bool := isSymbolPart c || c == '#' || c == '$'

theorem isSymbolPart_of_isDigitIn {c : Char} (h : isDigitIn 16 c = true) :
    isSymbolPart c = true := by
  have hvalue := digitValue_eq c
  rw [isDigitIn, decide_eq_true_iff] at h
  rw [isSymbolPart_iff, isSymbolStart_iff]
  split_ifs at hvalue <;> omega

theorem isBlank_of_isValuePart {c : Char} (h : isValuePart c = true) : isBlank c = false := by
  rw [isValuePart, Bool.or_eq_true, Bool.or_eq_true, beq_iff_eq, beq_iff_eq] at h
  rcases h with (h | rfl) | rfl
  · exact isBlank_of_isSymbolPart h
  · rfl
  · rfl

theorem LiteralText.isValuePart (h : LiteralText t n) : ∀ c ∈ t, isValuePart c = true := by
  have hdigits : ∀ {radix t}, radix ≤ 16 → Digits radix t n →
      ∀ c ∈ t, Assembler.isValuePart c = true := by
    intro radix t hradix hdigits c hc
    simp [Assembler.isValuePart, isSymbolPart_of_isDigitIn ((mem_digits hradix hdigits).2 c hc)]
  cases h with
  | octal h => exact hdigits (by decide) h
  | decimal h => exact List.forall_mem_cons.mpr ⟨rfl, hdigits (by decide) h⟩
  | hexadecimal h => exact List.forall_mem_cons.mpr ⟨rfl, hdigits (by decide) h⟩

theorem LiteralText.solid (h : LiteralText t n) : ∀ c ∈ t, isBlank c = false :=
  fun c hc => isBlank_of_isValuePart (h.isValuePart c hc)

theorem radixOf_digits (h : Digits 8 t n) : radixOf t = (8, t) := by
  obtain ⟨hne, hdigits⟩ := mem_digits (by decide) h
  obtain ⟨c, t, rfl⟩ := List.exists_cons_of_ne_nil hne
  have hc := hdigits c List.mem_cons_self
  exact radixOf_cons (ne_of_class hc (by decide)) (ne_of_class hc (by decide)) t

theorem literal?_eq_some_iff : literal? t = some n ↔ LiteralText (trim t) n := by
  rw [literal?]
  generalize trim t = u
  dsimp only
  rw [Option.filter_eq_some_iff, decide_eq_true_iff]
  constructor
  · rintro ⟨hnumeral, hn⟩
    fun_cases radixOf u with
    | case1 digits =>
        exact .decimal ((numeral?_eq_some_iff (by decide)).mp hnumeral) hn
    | case2 digits =>
        exact .hexadecimal ((numeral?_eq_some_iff (by decide)).mp hnumeral) hn
    | case3 digits hdecimal hhex =>
        rw [radixOf] at hnumeral
        · exact .octal ((numeral?_eq_some_iff (by decide)).mp hnumeral) hn
        all_goals assumption
  · intro h
    cases h with
    | octal h hn =>
        rw [radixOf_digits h]
        exact ⟨(numeral?_eq_some_iff (show 8 ≤ 16 by decide)).mpr h, hn⟩
    | decimal h hn => exact ⟨(numeral?_eq_some_iff (show 10 ≤ 16 by decide)).mpr h, hn⟩
    | hexadecimal h hn => exact ⟨(numeral?_eq_some_iff (show 16 ≤ 16 by decide)).mpr h, hn⟩

theorem LiteralText.literal? (h : LiteralText t n) : Assembler.literal? t = some n := by
  rw [literal?_eq_some_iff, (tight_of_solid h.solid).trim_eq]
  exact h

end Assembler

end StackComputer
