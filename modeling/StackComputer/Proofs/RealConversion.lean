import Mathlib
import StackComputer.Proofs.RealValue
import StackComputer.Proofs.Rounding

/-!
# Conversions

An integer becomes the real next to it, and a real the integer it is rounded
to. Double precision in between holds every integer of a doubleword, so nothing
is rounded twice.
-/

namespace StackComputer

open Rounding

namespace Binary64

theorem significant_rational (negative : Bool) {bits m k : ℕ} {e : ℤ}
    (hlog : Int.log 2 |rational negative m e| + 1 - bits = e + (k + 1 : ℕ)) :
    significant bits (rational negative m e) =
      rational negative ((m + 2 ^ k) / 2 ^ (k + 1)) (e + (k + 1 : ℕ)) := by
  have hquotient : ∀ s : ℚ, s * (m * 2 ^ e) / 2 ^ (e + (k + 1 : ℕ)) = s * (m / 2 ^ (k + 1)) := by
    intro s
    rw [zpow_add₀ two_ne_zero, zpow_natCast]
    field_simp
  rw [significant, lastPlace, hlog, rational_eq, rational_eq, hquotient]
  cases negative with
  | false => rw [if_neg Bool.false_ne_true, one_mul, one_mul, nearest_div_two_pow, Int.cast_natCast]
  | true =>
      rw [if_pos rfl, neg_one_mul, nearest_neg, nearest_div_two_pow, Int.cast_neg,
        Int.cast_natCast, neg_one_mul, neg_mul]

theorem log_abs_value {b : Binary64} (h : b.exponent ≠ 0) :
    Int.log 2 |b.value| = b.exponent - 1023 := by
  have hpos : 0 < |b.value| := abs_pos.mpr (mt value_eq_zero_iff.mp fun hzero => h hzero.1)
  exact RealWord.exponent_unique
    ⟨Int.zpow_log_le_self one_lt_two hpos, Int.lt_zpow_succ_log_self one_lt_two _⟩
    (two_pow_le_abs_value h)

/-! ## Integers -/

/-- The exponent field stands above the fraction. -/
theorem ofFields_zero_add (negative : Bool) (e f : ℕ) :
    ofFields negative 0 (e * 0x10000000000000 + f) = ofFields negative e f := by
  rw [ofFields, ofFields, Nat.zero_mul, Nat.add_zero, Nat.add_assoc]

theorem divideToEven_one (n : ℕ) : divideToEven n 1 = n := by
  rw [divideToEven, Nat.div_one, Nat.mod_one]
  rfl

theorem binaryExponent_one {n : ℕ} (hn : n ≠ 0) : binaryExponent n 1 = n.log2 := by
  have hle : 1 <<< n.log2 ≤ n := by
    rw [Nat.one_shiftLeft]
    exact Nat.log2_self_le hn
  have hshift : (-(n.log2 : ℤ)).toNat = 0 := Int.toNat_neg_natCast _
  have hlog : (n.log2 : ℤ) - Nat.log2 1 = n.log2 := Int.sub_zero _
  simp only [binaryExponent, hlog, hshift, Int.toNat_natCast, Nat.shiftLeft_zero,
    if_neg (Nat.not_lt.mpr hle)]

/-- An integer of no more than 53 bits is scaled until it has its leading one. -/
theorem ofRat_intCast {n : ℤ} (hne : n ≠ 0) (h : n.natAbs < 2 ^ 53) :
    Leading (n.natAbs * 2 ^ (52 - n.natAbs.log2)) ∧
      ofRat n = ofFields (decide (n < 0)) (n.natAbs.log2 + 1023)
        (n.natAbs * 2 ^ (52 - n.natAbs.log2) - 0x10000000000000) := by
  have hpos : n.natAbs ≠ 0 := Int.natAbs_ne_zero.mpr hne
  have hlog : n.natAbs.log2 < 53 := (Nat.log2_lt hpos).mpr h
  have hsplit : n.natAbs.log2 + (52 - n.natAbs.log2) = 52 := by omega
  have hleading : Leading (n.natAbs * 2 ^ (52 - n.natAbs.log2)) := by
    constructor
    · calc 0x10000000000000 = 2 ^ n.natAbs.log2 * 2 ^ (52 - n.natAbs.log2) := by
            rw [← pow_add, hsplit]
            rfl
        _ ≤ n.natAbs * 2 ^ (52 - n.natAbs.log2) :=
            Nat.mul_le_mul_right _ (Nat.log2_self_le hpos)
    · calc n.natAbs * 2 ^ (52 - n.natAbs.log2)
          < 2 ^ (n.natAbs.log2 + 1) * 2 ^ (52 - n.natAbs.log2) :=
            Nat.mul_lt_mul_of_pos_right Nat.lt_log2_self (Nat.two_pow_pos _)
        _ = 0x20000000000000 := by
            rw [pow_succ, mul_right_comm, ← pow_add, hsplit]
            rfl
  refine ⟨hleading, ?_⟩
  obtain ⟨hlow, hhigh⟩ := hleading
  have hexponent : max (n.natAbs.log2 : ℤ) (-1022) = n.natAbs.log2 := max_eq_left (by omega)
  have hscale : (52 - (n.natAbs.log2 : ℤ)).toNat = 52 - n.natAbs.log2 := by omega
  have hunscaled : (-(52 - (n.natAbs.log2 : ℤ))).toNat = 0 := by omega
  have hbiased : ((n.natAbs.log2 : ℤ) + 1022).toNat = n.natAbs.log2 + 1022 := by omega
  simp only [ofRat, Rat.intCast_eq_zero_iff, if_neg hne, Rat.num_intCast, Rat.den_intCast,
    binaryExponent_one hpos, hexponent, hscale, hunscaled, hbiased, Nat.shiftLeft_zero,
    divideToEven_one]
  have hcarry : (n.natAbs.log2 + 1022) * 0x10000000000000 + n.natAbs <<< (52 - n.natAbs.log2) =
      (n.natAbs.log2 + 1023) * 0x10000000000000 +
        (n.natAbs * 2 ^ (52 - n.natAbs.log2) - 0x10000000000000) := by
    rw [Nat.shiftLeft_eq]
    omega
  rw [hcarry, min_eq_left (by omega), ofFields_zero_add]
  congr

theorem ofRat_intCast_fields {n : ℤ} (hne : n ≠ 0) (h : n.natAbs < 2 ^ 53) :
    (ofRat n).exponent = n.natAbs.log2 + 1023 ∧ (ofRat n).value = n := by
  obtain ⟨⟨hlow, hhigh⟩, hpattern⟩ := ofRat_intCast hne h
  have hlog : n.natAbs.log2 < 53 := (Nat.log2_lt (Int.natAbs_ne_zero.mpr hne)).mpr h
  have hexponent : (ofRat n).exponent = n.natAbs.log2 + 1023 := by
    rw [hpattern, exponent_ofFields _ (by omega) (by omega)]
  refine ⟨hexponent, ?_⟩
  have hscale : ((n.natAbs.log2 + 1023 : ℕ) : ℤ) - 1075 + (52 - n.natAbs.log2 : ℕ) = 0 := by omega
  have hsign : (if n < 0 then -1 else 1 : ℚ) * (n.natAbs : ℚ) = n := by
    rw [Nat.cast_natAbs]
    split_ifs with hneg
    · rw [abs_of_neg hneg]
      push_cast
      ring
    · rw [abs_of_nonneg (not_lt.mp hneg), one_mul]
  rw [value_normal (by omega), hexponent, hpattern, negative_ofFields _ (by omega) (by omega),
    fraction_ofFields _ (by omega) (by omega), Nat.add_sub_cancel' hlow, rational_mul_two_pow,
    hscale, rational_eq, zpow_zero, mul_one, ← hsign]
  simp only [decide_eq_true_eq]

end Binary64

namespace RealWord

/-- What is encoded, other than as a zero, is rounded to 23 bits. -/
theorem value_eq_significant {b : Binary64} {r : Dword} (hfin : b.isFinite = true)
    (h : ofBinary64 b = .ok r) (hr : ¬isZero r = true) : value r = significant 23 b.value := by
  have hne : b.value ≠ 0 := by
    intro hzero
    rw [ofBinary64, if_pos (Binary64.value_eq_zero_iff.mp hzero)] at h
    exact hr (Except.ok.inj h ▸ rfl)
  rw [ofBinary64_of_value_ne_zero hfin hne] at h
  split_ifs at h with hover hunder
  obtain rfl := Except.ok.inj h
  have hexp : b.exponent ≠ 0 := by
    have hlt := b.fraction_lt
    rw [roundedExponent, roundedFraction] at hunder
    omega
  have hfraction := Nat.mod_lt (roundedFraction b) (show 0 < 0x400000 by decide)
  have hvanish := mt (isZero_ofFields b.negative (by omega) hfraction).mpr hr
  have hlog : Int.log 2 |b.value| + 1 - (23 : ℕ) = b.exponent - 1075 + (29 + 1 : ℕ) := by
    rw [Binary64.log_abs_value hexp]
    omega
  have hrounded : (0x10000000000000 + b.fraction + 2 ^ 29) / 2 ^ (29 + 1) =
      0x400000 + roundedFraction b := by
    rw [roundedFraction]
    omega
  rw [Binary64.value_normal hexp] at hlog
  rw [← value_toBinary64, toBinary64_ofFields _ (by omega) hfraction hvanish,
    Nat.sub_add_cancel (by omega), value_rounded (by omega) hexp, Binary64.value_normal hexp,
    Binary64.significant_rational _ hlog, hrounded]
  exact Binary64.rational_mul_two_pow b.negative _ 30 _

theorem exists_ofRat_intCast {n : ℤ} (h : |n| ≤ 2 ^ 31) :
    ∃ r, ofRat n = .ok r ∧ r ≠ 0x80000000 ∧ value r = significant 23 n := by
  by_cases hzero : n = 0
  · subst hzero
    refine ⟨0, by decide, by decide, ?_⟩
    rw [significant_intCast (by decide) (by decide)]
    rfl
  have hnat : n.natAbs ≤ 2 ^ 31 := by
    rw [Int.abs_eq_natAbs] at h
    exact_mod_cast h
  obtain ⟨hexponent, hvalue⟩ := Binary64.ofRat_intCast_fields hzero (by omega)
  have hlog : n.natAbs.log2 < 32 := (Nat.log2_lt (Int.natAbs_ne_zero.mpr hzero)).mpr (by omega)
  have hfin : (Binary64.ofRat n).isFinite = true := by
    rw [Binary64.isFinite, hexponent, bne_iff_ne]
    omega
  have hne : (Binary64.ofRat n).value ≠ 0 := by
    rw [hvalue]
    exact_mod_cast hzero
  have hlt := (Binary64.ofRat n).fraction_lt
  have hcarry : roundedFraction (Binary64.ofRat n) / 0x400000 ≤ 1 := by
    rw [roundedFraction]
    omega
  have hok := ofBinary64_of_value_ne_zero hfin hne
  rw [roundedExponent, hexponent, if_neg (by omega), if_neg (by omega)] at hok
  have hnonzero : ¬isZero (ofFields (Binary64.ofRat n).negative
      (n.natAbs.log2 + 1023 + roundedFraction (Binary64.ofRat n) / 0x400000 - 767)
      (roundedFraction (Binary64.ofRat n) % 0x400000)) = true := by
    rw [isZero_ofFields _ (by omega) (Nat.mod_lt _ (by decide))]
    omega
  refine ⟨_, hok, fun heq => hnonzero ((isZero_iff _).mpr (.inr heq)), ?_⟩
  rw [value_eq_significant hfin hok hnonzero, hvalue]

end RealWord

/-- The opcodes that make an integer of a real. -/
inductive Fixing where
  | truncated
  | rounded
deriving DecidableEq, Repr

namespace Fixing

def opcode : Fixing → StackOp
  | truncated => .fixt
  | rounded => .fixr

def integer (q : ℚ) : Fixing → ℤ
  | truncated => towardZero q
  | rounded => nearest q

theorem integer_intCast (op : Fixing) (k : ℤ) : op.integer k = k := by
  cases op with
  | truncated => exact towardZero_intCast k
  | rounded => exact nearest_intCast k

theorem effect_eq (op : Fixing) :
    op.opcode.effect =
      .unaryDouble fun d => .integer (op.integer (RealWord.value d)) := by
  cases op with
  | truncated =>
      simp only [integer, ← RealWord.truncate_eq_towardZero]
      rfl
  | rounded =>
      simp only [integer, ← RealWord.round_eq_nearest]
      rfl

end Fixing

theorem Outcome.integer_eq (k : ℤ) (l : Latches) :
    Outcome.integer k l =
      if -2 ^ 31 ≤ k ∧ k ≤ 2 ^ 31 - 1 then
        .double (BitVec.ofInt 32 k) (l.latchOverflow false (BitVec.ofInt 32 k))
      else .double 0 (l.latchOverflow true (0 : Dword)) := by
  have hrange : -0x80000000 ≤ k ∧ k < 0x80000000 ↔ -2 ^ 31 ≤ k ∧ k ≤ 2 ^ 31 - 1 := by omega
  rw [Outcome.integer, RealWord.toInteger?, if_congr hrange rfl rfl]
  split_ifs <;> rfl

namespace Machine

open RealWord

/-- A doubleword is replaced by another one, which sets the condition code. -/
def Converts (m : Machine) (d : Dword) (overflow : Bool) (m' : Machine) : Prop :=
  m.Yields 2 [d.low, d.high] (m.latches.latchOverflow overflow d) m'

/-- A doubleword is replaced by an integer, or by zero if that is out of range. -/
def ConvertsToInteger (m : Machine) (k : ℤ) (m' : Machine) : Prop :=
  if -2 ^ 31 ≤ k ∧ k ≤ 2 ^ 31 - 1 then m.Converts (BitVec.ofInt 32 k) false m'
  else m.Converts 0 true m'

section

variable {m m₁ m₂ : Machine}

theorem Converts.trans {r d : Dword} {o₁ o₂ : Bool} (h₁ : m.Converts r o₁ m₁)
    (h₂ : m₁.Converts d o₂ m₂) : m.Converts d o₂ m₂ := by
  have htrans := Yields.trans h₁ h₂
  rwa [Yields.latches_eq h₁] at htrans

theorem ConvertsToInteger.trans {r : Dword} {o : Bool} {k : ℤ} (h₁ : m.Converts r o m₁)
    (h₂ : m₁.ConvertsToInteger k m₂) : m.ConvertsToInteger k m₂ := by
  rw [ConvertsToInteger] at h₂ ⊢
  split_ifs at h₂ ⊢ <;> exact h₁.trans h₂

theorem abs_toInt_le (d : Dword) : |d.toInt| ≤ 2 ^ 31 :=
  abs_le.mpr ⟨d.le_toInt, (BitVec.toInt_lt (x := d)).le⟩

theorem exists_float (hrun : m.isRunning = true) (hk : 2 ≤ m.regs.available) :
    ∃ r m', (stackOp .dflt).perform m = (.ok (), m') ∧ m.Converts r false m' ∧
      r ≠ 0x80000000 ∧ number r = significant 23 (Dword.join m.regs.rb m.regs.ra).toInt := by
  obtain ⟨r, hr, hzero, hvalue⟩ := exists_ofRat_intCast
    (abs_toInt_le (Dword.join m.regs.rb m.regs.ra))
  have houtcome : Outcome.real (RealWord.ofRat (Dword.join m.regs.rb m.regs.ra).toInt) m.latches =
      .double r (m.latches.latchOverflow false r) := by
    rw [hr]
    rfl
  refine ⟨r, StackOp.dflt.effect.act m, ?_, yields_replace rfl (by decide) hk
    (congrArg Outcome.pushed houtcome) (congrArg Outcome.latches houtcome) (Nat.le_refl 2), hzero,
    value_eq_number r ▸ hvalue⟩
  exact (StackOp.perform_stackOp hrun (by decide)).trans (if_neg (Nat.not_lt.mpr hk))

theorem exists_fix (op : Fixing) (hrun : m.isRunning = true) (hk : 2 ≤ m.regs.available) :
    ∃ m', (stackOp op.opcode).perform m = (.ok (), m') ∧
      m.ConvertsToInteger (op.integer (number (Dword.join m.regs.rb m.regs.ra))) m' := by
  have hoperands : op.opcode.operands = 2 := by cases op <;> rfl
  have hdefined : op.opcode ≠ .unk := by cases op <;> decide
  have houtcome := Outcome.integer_eq
    (op.integer (value (Dword.join m.regs.rb m.regs.ra))) m.latches
  refine ⟨op.opcode.effect.act m, ?_, ?_⟩
  · rw [StackOp.perform_stackOp hrun hdefined, hoperands, if_neg (Nat.not_lt.mpr hk)]
  · rw [ConvertsToInteger, ← value_eq_number]
    split_ifs at houtcome ⊢ <;>
      exact yields_replace op.effect_eq (Nat.le_add_right 2 2) hk (congrArg Outcome.pushed houtcome)
        (congrArg Outcome.latches houtcome) (Nat.le_refl 2)

end

/-- Conversions of doublewords are exact up to one rounding: to 23 significant
bits, or to an integer. There and back again an integer is rounded once, and is
out of range only if it was rounded up past the greatest one. -/
theorem conversions_round_once (m : Machine) (hrun : m.isRunning = true)
    (hk : 2 ≤ m.regs.available) :
    let d := Dword.join m.regs.rb m.regs.ra
    (∃ r m', (stackOp .dflt).perform m = (.ok (), m') ∧ m.Converts r false m' ∧
      r ≠ 0x80000000 ∧ number r = significant 23 d.toInt) ∧
    (∀ op : Fixing, ∃ m', (stackOp op.opcode).perform m = (.ok (), m') ∧
      m.ConvertsToInteger (op.integer (number d)) m') ∧
    ∀ op : Fixing, ∃ k : ℤ, ∃ m₁ m₂, (stackOp .dflt).perform m = (.ok (), m₁) ∧
      (stackOp op.opcode).perform m₁ = (.ok (), m₂) ∧
      k = significant 23 d.toInt ∧ |k| ≤ 2 ^ 31 ∧
      (|d.toInt| ≤ 2 ^ 23 → m.Converts d false m₂) ∧
      (k < 2 ^ 31 → m.Converts (BitVec.ofInt 32 k) false m₂) ∧
      (k = 2 ^ 31 → m.Converts 0 true m₂) := by
  intro d
  refine ⟨exists_float hrun hk, fun op => exists_fix op hrun hk, fun op => ?_⟩
  obtain ⟨r, m₁, hm₁, hfloat, -, hvalue⟩ := exists_float hrun hk
  obtain ⟨m₂, hm₂, hfix⟩ := exists_fix op ((Yields.isRunning_eq hfloat).trans hrun)
    (Yields.length_le_available hfloat)
  obtain ⟨k, hrounded, hle⟩ := exists_significant_eq_intCast (show 0 < 23 by decide)
    (abs_toInt_le d)
  rw [Yields.join_eq hfloat, hvalue, hrounded, op.integer_intCast] at hfix
  have hconverts := ConvertsToInteger.trans hfloat hfix
  have hlow := (abs_le.mp hle).1
  have hinside : k < 2 ^ 31 → m.Converts (BitVec.ofInt 32 k) false m₂ := by
    intro hlt
    rwa [ConvertsToInteger, if_pos ⟨hlow, Int.le_sub_one_of_lt hlt⟩] at hconverts
  refine ⟨k, m₁, m₂, hm₁, hm₂, hrounded.symm, hle, fun hsmall => ?_, hinside, fun heq => ?_⟩
  · have hsame : k = d.toInt := by
      have hexact := significant_intCast (show 0 < 23 by decide) hsmall
      exact_mod_cast hrounded.symm.trans hexact
    have hconverted := hinside (hsame ▸ BitVec.toInt_lt)
    rwa [hsame, BitVec.ofInt_toInt] at hconverted
  · rwa [ConvertsToInteger, if_neg (by omega)] at hconverts

/-- Minus three, there and back. -/
theorem conversions_round_once_minus_three :
    let m := (StackRequest.answerAll Machine.answer [.push 0xFFFF, .push 0xFFFD] {}).2
    m.isRunning = true ∧ 2 ≤ m.regs.available ∧
    ∃ m₁ m₂, (stackOp .dflt).perform m = (.ok (), m₁) ∧ (stackOp .fixr).perform m₁ = (.ok (), m₂) ∧
      m₂.stack = [0xFFFD, 0xFFFF] ∧ m₂.regs.sta.overflow = false ∧ m₂.regs.sta.cc = .less := by
  intro m
  have hreach : m.Reachable := Reachable.answerAll (.fresh .new) _
  obtain ⟨-, m₁, m₂, hm₁, hm₂, -, -, hsmall, -⟩ :=
    (conversions_round_once m (by decide) (by decide)).2.2 .rounded
  have hconverts := hsmall (by decide)
  have hsta := congrArg Frame.sta hconverts.frame_eq
  refine ⟨by decide, by decide, m₁, m₂, hm₁, hm₂, ?_, ?_, ?_⟩
  · exact (hconverts.stack_eq hreach.wellFormed).trans (by decide)
  · exact (congrArg Status.overflow hsta).trans (by decide)
  · exact (congrArg Status.cc hsta).trans (by decide)

end Machine

end StackComputer
