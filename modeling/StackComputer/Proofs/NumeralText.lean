import StackComputer.Assembler.Literal
import StackComputer.Proofs.TextScan

/-!
# Numerals read back

A number written in a radix, with leading zeros or without, reads as itself.
-/

namespace StackComputer

namespace Text

theorem digitValue_digitChar {k : Nat} (hk : k < 16) : digitValue k.digitChar = k := by
  have hall : ∀ k < 16, digitValue k.digitChar = k := by decide
  exact hall k hk

theorem mem_toDigits {b n : Nat} (hb : 1 < b) {c : Char} (hc : c ∈ Nat.toDigits b n) :
    ∃ k < b, c = k.digitChar := by
  induction n using Nat.strongRecOn with
  | ind n ih =>
      rw [Nat.toDigits_eq_if hb] at hc
      split at hc
      · next hlt => exact ⟨n, hlt, List.mem_singleton.mp hc⟩
      · next hge =>
          rcases List.mem_append.mp hc with hc | hc
          · exact ih (n / b) (Nat.div_lt_self (by omega) hb) hc
          · exact ⟨n % b, Nat.mod_lt n (by omega), List.mem_singleton.mp hc⟩

theorem ofDigits_append (radix n : Nat) (s t : Text) :
    ofDigits radix n (s ++ t) = ofDigits radix (ofDigits radix n s) t :=
  List.foldl_append

theorem ofDigits_zeros (radix k : Nat) : ofDigits radix 0 (List.replicate k '0') = 0 := by
  induction k with
  | zero => rfl
  | succ k ih =>
      have hzero : 0 * radix + digitValue '0' = 0 := by
        rw [Nat.zero_mul]
        decide
      rw [List.replicate_succ, ofDigits, List.foldl_cons, hzero]
      exact ih

theorem ofDigits_toDigits {b : Nat} (hb : 1 < b) (hmax : b ≤ 16) (n : Nat) :
    ofDigits b 0 (Nat.toDigits b n) = n := by
  induction n using Nat.strongRecOn with
  | ind n ih =>
      rw [Nat.toDigits_eq_if hb]
      split
      · next hlt =>
          rw [ofDigits, List.foldl_cons, List.foldl_nil, digitValue_digitChar (by omega)]
          omega
      · next hge =>
          have hmod : n % b < 16 := Nat.lt_of_lt_of_le (Nat.mod_lt n (by omega)) hmax
          rw [ofDigits_append, ih (n / b) (Nat.div_lt_self (by omega) hb), ofDigits,
            List.foldl_cons, List.foldl_nil, digitValue_digitChar hmod]
          exact Nat.div_add_mod' n b

theorem octalPadded_zero (n : Nat) : octalPadded 0 n = octal n := by
  rw [octalPadded, Nat.zero_sub]
  rfl

theorem octalPadded_ne_nil (width n : Nat) : octalPadded width n ≠ [] :=
  List.append_ne_nil_of_right_ne_nil _ Nat.toDigits_ne_nil

theorem mem_octalPadded {width n : Nat} {c : Char} (hc : c ∈ octalPadded width n) :
    ∃ k < 8, c = k.digitChar := by
  rcases List.mem_append.mp hc with hc | hc
  · exact ⟨0, by decide, (List.mem_replicate.mp hc).2⟩
  · exact mem_toDigits (by decide) hc

theorem numeral?_octalPadded (width n : Nat) : numeral? 8 (octalPadded width n) = some n := by
  have hdigits : (octalPadded width n).all (isDigitIn 8) = true := by
    rw [List.all_eq_true]
    intro c hc
    obtain ⟨k, hk, rfl⟩ := mem_octalPadded hc
    rw [isDigitIn, digitValue_digitChar (by omega)]
    exact decide_eq_true hk
  have hvalue : ofDigits 8 0 (octalPadded width n) = n := by
    rw [octalPadded, ofDigits_append, ofDigits_zeros]
    exact ofDigits_toDigits (by decide) (by decide) n
  rw [numeral?, hdigits, hvalue, List.isEmpty_eq_false_iff.mpr (octalPadded_ne_nil width n)]
  rfl

theorem isInner_of_octalPadded {width n : Nat} : ∀ c ∈ octalPadded width n, isInner c = true := by
  intro c hc
  obtain ⟨k, hk, rfl⟩ := mem_octalPadded hc
  have hall : ∀ k < 8, isInner k.digitChar = true := by decide
  exact hall k hk

theorem isInner_of_octal {n : Nat} : ∀ c ∈ octal n, isInner c = true :=
  octalPadded_zero n ▸ isInner_of_octalPadded

theorem solid_octalPadded {width n : Nat} : ∀ c ∈ octalPadded width n, isBlank c = false :=
  fun c hc => isBlank_of_isInner (isInner_of_octalPadded c hc)

end Text

namespace Assembler

open Text

theorem radixOf_cons {c : Char} (hdecimal : c ≠ '#') (hhex : c ≠ '$') (t : Text) :
    radixOf (c :: t) = (8, c :: t) := by
  rw [radixOf]
  · exact fun _ hcons => hdecimal (List.cons.inj hcons).1
  · exact fun _ hcons => hhex (List.cons.inj hcons).1

/-- Octal printing is undone, whatever the number of leading zeros. -/
theorem literal?_octalPadded (width : Nat) {n : Nat} (hn : n < 0x10000000000000000) :
    literal? (octalPadded width n) = some n := by
  obtain ⟨c, t, ht⟩ := List.exists_cons_of_ne_nil (octalPadded_ne_nil width n)
  have hradix : radixOf (octalPadded width n) = (8, octalPadded width n) := by
    obtain ⟨k, hk, hck⟩ := mem_octalPadded (ht ▸ List.mem_cons_self : c ∈ octalPadded width n)
    have hall : ∀ k < 8, k.digitChar ≠ '#' ∧ k.digitChar ≠ '$' := by decide
    obtain ⟨hdecimal, hhex⟩ := hall k hk
    rw [ht]
    exact radixOf_cons (hck ▸ hdecimal) (hck ▸ hhex) t
  rw [literal?, (tight_of_solid solid_octalPadded).trim_eq, hradix]
  dsimp only
  rw [numeral?_octalPadded, Option.filter_some, decide_eq_true hn, if_pos rfl]

theorem literal?_octal {n : Nat} (hn : n < 0x10000000000000000) : literal? (octal n) = some n :=
  octalPadded_zero n ▸ literal?_octalPadded 0 hn

end Assembler

end StackComputer
