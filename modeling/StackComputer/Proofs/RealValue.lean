import Mathlib
import StackComputer.Proofs.OperandReplacement
import StackComputer.Proofs.RealEncoding

/-!
# Values of reals

A real is read as a double precision pattern of the same value, and that
pattern is written as the same real again. Only the zero with a sign loses it.
-/

namespace StackComputer

namespace RealWord

/-- The number a real stands for, by its fields. -/
def number (r : Dword) : ℚ :=
  if r = 0 ∨ r = 0x80000000 then 0 else
  (-1) ^ (negative r).toNat * (1 + fraction r / 2 ^ 22) * 2 ^ ((exponent r : ℤ) - 256)

section

variable (r : Dword)

theorem fraction_lt : fraction r < 0x400000 := Nat.mod_lt _ (by decide)

theorem exponent_lt : exponent r < 0x200 := Nat.mod_lt _ (by decide)

theorem ofFields_fields : ofFields (negative r) (exponent r) (fraction r) = r := by
  apply BitVec.eq_of_toNat_eq
  have hlt := r.isLt
  rw [toNat_ofFields _ (exponent_lt r) (fraction_lt r), negative, BitVec.msb_eq_decide, exponent,
    fraction]
  by_cases hsign : 2 ^ (32 - 1) ≤ r.toNat
  · rw [decide_eq_true hsign, Bool.toNat_true]
    omega
  · rw [decide_eq_false hsign, Bool.toNat_false]
    omega

theorem value_eq_number : value r = number r := by
  rw [value, number]
  simp only [isZero_iff]
  split_ifs with hzero
  · rfl
  have hpow : (2 : ℚ) ^ ((exponent r : ℤ) - 256) = 2 ^ 22 * 2 ^ ((exponent r : ℤ) - 278) := by
    rw [← zpow_natCast, ← zpow_add₀ two_ne_zero]
    congr 1
    omega
  have hsign : (if negative r then -1 else 1 : ℚ) = (-1) ^ (negative r).toNat := by
    cases negative r <;> simp
  rw [Binary64.rational_eq, hpow, hsign]
  push_cast
  ring

variable {r}

theorem toBinary64_of_isZero (h : isZero r = true) : toBinary64 r = 0 := by
  rw [toBinary64, if_pos h]

theorem not_fields_zero (h : ¬isZero r = true) : ¬(exponent r = 0 ∧ fraction r = 0) := by
  have hfields := isZero_ofFields (negative r) (exponent_lt r) (fraction_lt r)
  rw [ofFields_fields] at hfields
  rwa [← hfields]

/-- Reading moves the fields to where a double precision pattern has them. -/
theorem fields_toBinary64 (h : ¬isZero r = true) :
    (toBinary64 r).negative = negative r ∧ (toBinary64 r).exponent = exponent r + 767 ∧
      (toBinary64 r).fraction = fraction r * 0x40000000 := by
  have hexponent := exponent_lt r
  have hfraction := fraction_lt r
  rw [toBinary64, if_neg h]
  exact ⟨Binary64.negative_ofFields _ (by omega) (by omega),
    Binary64.exponent_ofFields _ (by omega) (by omega),
    Binary64.fraction_ofFields _ (by omega) (by omega)⟩

variable (r)

theorem isFinite_toBinary64 : (toBinary64 r).isFinite = true := by
  by_cases hzero : isZero r = true
  · rw [toBinary64_of_isZero hzero]
    rfl
  · have hexponent := exponent_lt r
    rw [Binary64.isFinite, (fields_toBinary64 hzero).2.1, bne_iff_ne]
    omega

theorem value_toBinary64 : (toBinary64 r).value = value r := by
  by_cases hzero : isZero r = true
  · rw [toBinary64_of_isZero hzero, value, if_pos hzero]
    exact Binary64.value_eq_zero_iff.mpr (by decide)
  · obtain ⟨hnegative, hexponent, hfraction⟩ := fields_toBinary64 hzero
    have hleading : 0x10000000000000 + fraction r * 0x40000000 =
        (0x400000 + fraction r) * 2 ^ 30 := by omega
    have hscale : ((exponent r + 767 : ℕ) : ℤ) - 1075 + (30 : ℕ) = exponent r - 278 := by omega
    rw [Binary64.value_normal (by omega), hnegative, hexponent, hfraction, hleading,
      Binary64.rational_mul_two_pow, hscale, value, if_neg hzero]

theorem ofBinary64_toBinary64 :
    ofBinary64 (toBinary64 r) = .ok (if r = 0x80000000 then 0 else r) := by
  by_cases hzero : isZero r = true
  · have hboth : (if r = 0x80000000 then 0 else r) = 0 := by
      rcases (isZero_iff r).mp hzero with rfl | rfl <;> rfl
    rw [toBinary64_of_isZero hzero, hboth]
    rfl
  · obtain ⟨hnegative, hexponent, hfraction⟩ := fields_toBinary64 hzero
    have hlt := fraction_lt r
    have hmax := exponent_lt r
    have hrounded : roundedFraction (toBinary64 r) = fraction r := by
      rw [roundedFraction, hfraction]
      omega
    have hbiased : roundedExponent (toBinary64 r) = exponent r + 767 := by
      rw [roundedExponent, hrounded, hexponent, Nat.div_eq_of_lt hlt, Nat.add_zero]
    have hne : (toBinary64 r).value ≠ 0 := by
      rw [Ne, Binary64.value_eq_zero_iff]
      omega
    rw [ofBinary64_of_value_ne_zero (isFinite_toBinary64 r) hne, hrounded, hbiased, hnegative,
      if_neg (by omega), if_neg (by omega), Nat.add_sub_cancel, Nat.mod_eq_of_lt hlt,
      ofFields_fields, if_neg (mt (isZero_iff r).mpr hzero ∘ .inr)]

end

/-! ## Order -/

/-- The bits below the sign. -/
def magnitude (r : Dword) : Nat := r.toNat % 0x80000000

def signedMagnitude (r : Dword) : Int := if negative r then -magnitude r else magnitude r

theorem magnitude_eq (r : Dword) : magnitude r = exponent r * 0x400000 + fraction r := by
  rw [magnitude, exponent, fraction]
  omega

theorem value_eq_abs (r : Dword) : value r = if negative r then -|value r| else |value r| := by
  by_cases hzero : isZero r = true
  · rw [value, if_pos hzero, abs_zero, neg_zero, ite_self]
  · rw [value, if_neg hzero, Binary64.abs_rational, Binary64.rational_eq]
    cases negative r <;> simp

/-- The exponent stands above the fraction, so magnitudes compare as the bits do. -/
theorem abs_value_lt_iff (a b : Dword) : |value a| < |value b| ↔ magnitude a < magnitude b := by
  have hlt := fraction_lt a
  by_cases hzero : isZero b = true
  · have hbits : magnitude b = 0 := beq_iff_eq.mp hzero
    rw [show value b = 0 from if_pos hzero, abs_zero, hbits]
    exact iff_of_false (abs_nonneg _).not_gt (Nat.not_lt_zero _)
  · obtain ⟨-, hexponent, hfraction⟩ := fields_toBinary64 hzero
    have hvalue := Binary64.value_normal (b := toBinary64 b) (by omega)
    rw [← value_toBinary64, ← value_toBinary64 b, hvalue, Binary64.abs_rational,
      Binary64.abs_value_lt_iff _ (toBinary64 b).leading (by omega), hexponent, hfraction,
      magnitude_eq, magnitude_eq]
    have hltb := fraction_lt b
    by_cases hzero : isZero a = true
    · have hnonzero := not_fields_zero ‹¬isZero b = true›
      have hbits : magnitude a = 0 := beq_iff_eq.mp hzero
      rw [magnitude_eq] at hbits
      rw [toBinary64_of_isZero hzero]
      have hnone : (0 : Binary64).exponent = 0 := rfl
      have hnof : (0 : Binary64).fraction = 0 := rfl
      omega
    · obtain ⟨-, hexponent, hfraction⟩ := fields_toBinary64 hzero
      omega

/-- Reals are in the order of their magnitudes with a sign. -/
theorem value_lt_iff (a b : Dword) : value a < value b ↔ signedMagnitude a < signedMagnitude b := by
  have hlt := abs_value_lt_iff a b
  have hgt := abs_value_lt_iff b a
  have hpos : ∀ r, 0 < |value r| ↔ 0 < magnitude r := by
    intro r
    have hzero := abs_value_lt_iff 0 r
    rwa [show value 0 = 0 from rfl, abs_zero] at hzero
  have hmixed : -|value a| < |value b| ↔ 0 < |value a| ∨ 0 < |value b| := by
    have ha := abs_nonneg (value a)
    have hb := abs_nonneg (value b)
    constructor
    · intro hlt
      by_contra! hnone
      linarith
    · rintro (hpos | hpos) <;> linarith
  have hnot : ¬|value a| < -|value b| :=
    not_lt.mpr ((neg_nonpos.mpr (abs_nonneg _)).trans (abs_nonneg _))
  rw [value_eq_abs a, value_eq_abs b, signedMagnitude, signedMagnitude]
  cases negative a <;> cases negative b <;>
    simp only [Bool.false_eq_true, if_true, if_false, neg_lt_neg_iff, hlt, hgt, hmixed, hpos, hnot,
      false_iff]
    <;> omega

theorem ofOrdering_compare (a b : Dword) :
    (ConditionCode.ofOrdering (compare a b) = .less ↔ number a < number b) ∧
      (ConditionCode.ofOrdering (compare a b) = .equal ↔ number a = number b) ∧
      (ConditionCode.ofOrdering (compare a b) = .greater ↔ number b < number a) := by
  rw [compare, value_eq_number, value_eq_number]
  rcases lt_trichotomy (number a) (number b) with hlt | heq | hgt
  · simp [hlt, hlt.ne, hlt.not_gt, ConditionCode.ofOrdering]
  · simp [heq, ConditionCode.ofOrdering]
  · simp [hgt, hgt.ne', hgt.not_gt, ConditionCode.ofOrdering]

end RealWord

namespace Machine

open RealWord

/-- Reals are read and written again unchanged, but for the zero with a sign.
What is read has the value the fields of the real stand for, and reals compare
as these values do, the deeper one on the left. -/
theorem reals_are_their_numbers :
    (∀ r : Dword, ofBinary64 (toBinary64 r) = .ok (if r = 0x80000000 then 0 else r)) ∧
    (∀ r : Dword, (toBinary64 r).isFinite = true ∧ (toBinary64 r).value = number r) ∧
    ∀ m : Machine, m.isRunning = true → StackOp.fcmp.operands ≤ m.regs.available →
      let deeper := number (Dword.join m.regs.rd m.regs.rc)
      let top := number (Dword.join m.regs.rb m.regs.ra)
      ∃ cc m', (stackOp .fcmp).perform m = (.ok (), m') ∧
        m.Yields StackOp.fcmp.operands [] (m.latches.setCode cc) m' ∧
        (cc = .less ↔ deeper < top) ∧ (cc = .equal ↔ deeper = top) ∧
        (cc = .greater ↔ top < deeper) := by
  refine ⟨ofBinary64_toBinary64, fun r => ⟨isFinite_toBinary64 r, ?_⟩, ?_⟩
  · rw [value_toBinary64, value_eq_number]
  intro m hrun hk deeper top
  refine ⟨.ofOrdering (RealWord.compare (Dword.join m.regs.rd m.regs.rc)
    (Dword.join m.regs.rb m.regs.ra)), StackOp.fcmp.effect.act m, ?_,
    yields_replace rfl (by decide) hk rfl rfl (by decide), ofOrdering_compare _ _⟩
  rw [StackOp.perform_stackOp hrun (by decide), if_neg (Nat.not_lt.mpr hk)]

/-- Minus two is below minus one, though its bits are above. -/
theorem reals_are_their_numbers_minus_two :
    let m := (StackRequest.answerAll Machine.answer
      [.push 0xC040, .push 0, .push 0xC000, .push 0] {}).2
    m.isRunning = true ∧ StackOp.fcmp.operands ≤ m.regs.available ∧
    ∃ m', (stackOp .fcmp).perform m = (.ok (), m') ∧ m'.stack = [] ∧
      m'.regs.sta.cc = .less := by
  intro m
  have hreach : m.Reachable := Reachable.answerAll (.fresh .new) _
  obtain ⟨cc, m', hm', hyields, hless, -⟩ := reals_are_their_numbers.2.2 m (by decide) (by decide)
  refine ⟨by decide, by decide, m', hm', ?_, ?_⟩
  · exact (hyields.stack_eq hreach.wellFormed).trans (by decide)
  · have hbelow : number (Dword.join m.regs.rd m.regs.rc) <
        number (Dword.join m.regs.rb m.regs.ra) := by
      rw [← value_eq_number, ← value_eq_number, value_lt_iff]
      decide
    exact (congrArg Status.cc (congrArg Frame.sta hyields.frame_eq)).trans (hless.mpr hbelow)

end Machine

end StackComputer
