import Mathlib
import StackComputer.RealWord

/-!
# Encoding reals

A real keeps the sign and the exponent of a double precision pattern and the
upper 22 bits of its fraction, rounded. The rounding may carry into the
exponent, and at the low end of the range it may reach the patterns that are
kept for zero.
-/

namespace StackComputer

namespace Binary64

theorem rational_eq (negative : Bool) (m : Nat) (e : Int) :
    rational negative m e = (if negative then -1 else 1) * ((m : ℚ) * 2 ^ e) := by
  have hpow : (2 : ℚ) ^ e = 2 ^ e.toNat / 2 ^ (-e).toNat := by
    rw [← zpow_natCast, ← zpow_natCast, ← zpow_sub₀ two_ne_zero]
    congr 1
    omega
  rw [rational, Rat.mkRat_eq_div, Nat.shiftLeft_eq, Nat.shiftLeft_eq, hpow]
  cases negative <;> simp <;> ring

theorem abs_rational (negative : Bool) (m : Nat) (e : Int) :
    |rational negative m e| = (m : ℚ) * 2 ^ e := by
  have hnonneg : (0 : ℚ) ≤ m * 2 ^ e := by positivity
  rw [rational_eq]
  cases negative <;> simp [abs_of_nonneg]

theorem abs_rational_sub (negative : Bool) (m m' : Nat) (e : Int) :
    |rational negative m e - rational negative m' e| = |(m : ℚ) - m'| * 2 ^ e := by
  have hpow : (0 : ℚ) < 2 ^ e := by positivity
  rw [rational_eq, rational_eq, ← mul_sub, ← sub_mul, abs_mul, abs_mul, abs_of_pos hpow]
  cases negative <;> simp

theorem rational_mul_two_pow (negative : Bool) (m k : Nat) (e : Int) :
    rational negative (m * 2 ^ k) e = rational negative m (e + k) := by
  rw [rational_eq, rational_eq, zpow_add₀ two_ne_zero, zpow_natCast]
  push_cast
  ring

theorem sign_rational (negative : Bool) {m : Nat} (hm : m ≠ 0) (e : Int) :
    SignType.sign (rational negative m e) = if negative then -1 else 1 := by
  have hpos : (0 : ℚ) < m * 2 ^ e := by positivity
  rw [rational_eq]
  cases negative <;> simp [hpos]

section

variable (negative : Bool) {e f : Nat}

theorem toNat_ofFields (he : e < 0x800) (hf : f < 0x10000000000000) :
    (ofFields negative e f).toNat =
      negative.toNat * 0x8000000000000000 + e * 0x10000000000000 + f := by
  have hsign := negative.toNat_le
  rw [ofFields, BitVec.toNat_ofNat, Nat.mod_eq_of_lt (by omega)]

theorem exponent_ofFields (he : e < 0x800) (hf : f < 0x10000000000000) :
    (ofFields negative e f).exponent = e := by
  rw [exponent, toNat_ofFields negative he hf]
  omega

theorem fraction_ofFields (he : e < 0x800) (hf : f < 0x10000000000000) :
    (ofFields negative e f).fraction = f := by
  rw [fraction, toNat_ofFields negative he hf]
  omega

theorem negative_ofFields (he : e < 0x800) (hf : f < 0x10000000000000) :
    (ofFields negative e f).negative = negative := by
  rw [Binary64.negative, BitVec.msb_eq_decide, toNat_ofFields negative he hf]
  cases negative <;> simp <;> omega

end

/-- Significands with their leading one. -/
def Leading (m : Nat) : Prop := 0x10000000000000 ≤ m ∧ m < 0x20000000000000

theorem mul_two_pow_lt_of_lt {m m' : Nat} {e e' : Int} (hm : Leading m) (hm' : Leading m')
    (he : e < e') : (m : ℚ) * 2 ^ e < m' * 2 ^ e' := by
  have hlow : (m : ℚ) < 2 * m' := by exact_mod_cast (show m < 2 * m' from by
    obtain ⟨-, hm⟩ := hm
    obtain ⟨hm', -⟩ := hm'
    omega)
  have hpow : (2 : ℚ) ^ (e + 1) ≤ 2 ^ e' := zpow_le_zpow_right₀ one_le_two he
  calc
    (m : ℚ) * 2 ^ e < 2 * m' * 2 ^ e := by gcongr
    _ = m' * 2 ^ (e + 1) := by rw [zpow_add_one₀ two_ne_zero]; ring
    _ ≤ m' * 2 ^ e' := by gcongr

/-- Magnitudes compare by their exponents first. -/
theorem mul_two_pow_lt_iff {m m' : Nat} {e e' : Int} (hm : Leading m) (hm' : Leading m') :
    (m : ℚ) * 2 ^ e < m' * 2 ^ e' ↔ e < e' ∨ e = e' ∧ m < m' := by
  rcases lt_trichotomy e e' with hlt | rfl | hgt
  · simp [hlt, mul_two_pow_lt_of_lt hm hm' hlt]
  · have hpow : (0 : ℚ) < 2 ^ e := by positivity
    simp [mul_lt_mul_iff_left₀ hpow]
  · simp [hgt.not_gt, hgt.ne', (mul_two_pow_lt_of_lt hm' hm hgt).le]

section

variable {b : Binary64}

theorem fraction_lt (b : Binary64) : b.fraction < 0x10000000000000 :=
  Nat.mod_lt _ (by decide)

theorem leading (b : Binary64) : Leading (0x10000000000000 + b.fraction) := by
  have hlt := b.fraction_lt
  constructor <;> omega

theorem value_normal (h : b.exponent ≠ 0) :
    b.value = rational b.negative (0x10000000000000 + b.fraction) (b.exponent - 1075) := by
  have hmax : max b.exponent 1 = b.exponent := Nat.max_eq_left (Nat.pos_of_ne_zero h)
  rw [value, significand, if_neg h, hmax]

theorem value_subnormal (h : b.exponent = 0) :
    b.value = rational b.negative b.fraction (-1074) := by
  rw [value, significand, if_pos h, h]
  rfl

theorem value_eq_zero_iff : b.value = 0 ↔ b.exponent = 0 ∧ b.fraction = 0 := by
  rw [← abs_eq_zero]
  by_cases h : b.exponent = 0
  · simp [value_subnormal h, abs_rational, h]
  · have hpos : (0 : ℚ) <
        (0x10000000000000 + b.fraction : ℕ) * 2 ^ ((b.exponent : Int) - 1075) := by positivity
    rw [value_normal h, abs_rational]
    simp only [hpos.ne', h, false_and]

/-- Under a bound with the least exponent a subnormal pattern lies in any case. -/
theorem abs_value_lt_iff (b : Binary64) {m : Nat} {e : Int} (hm : Leading m) (he : -1074 ≤ e) :
    |b.value| < m * 2 ^ e ↔ (b.exponent : Int) - 1075 < e ∨
      (b.exponent : Int) - 1075 = e ∧ 0x10000000000000 + b.fraction < m := by
  by_cases h : b.exponent = 0
  · have hlt : |b.value| < m * 2 ^ e := by
      have hfraction : (b.fraction : ℚ) < m := by exact_mod_cast b.fraction_lt.trans_le hm.1
      have hpow : (2 : ℚ) ^ (-1074 : Int) ≤ 2 ^ e := zpow_le_zpow_right₀ one_le_two he
      rw [value_subnormal h, abs_rational]
      calc
        (b.fraction : ℚ) * 2 ^ (-1074 : Int) < m * 2 ^ (-1074 : Int) := by gcongr
        _ ≤ m * 2 ^ e := by gcongr
    exact iff_of_true hlt (.inl (by omega))
  · rw [value_normal h, abs_rational, mul_two_pow_lt_iff b.leading hm]

theorem two_pow_le_abs_value (h : b.exponent ≠ 0) :
    2 ^ ((b.exponent : Int) - 1023) ≤ |b.value| ∧
      |b.value| < 2 ^ ((b.exponent : Int) - 1023 + 1) := by
  obtain ⟨hlow, hhigh⟩ := b.leading
  have hpow : ∀ k : Nat, (2 : ℚ) ^ ((b.exponent : Int) - 1075 + k) =
      ((2 ^ k : ℕ) : ℚ) * 2 ^ ((b.exponent : Int) - 1075) := by
    intro k
    rw [zpow_add₀ two_ne_zero, zpow_natCast, mul_comm]
    push_cast
    rfl
  rw [value_normal h, abs_rational,
    show (b.exponent : Int) - 1023 + 1 = b.exponent - 1075 + (53 : ℕ) by omega,
    show (b.exponent : Int) - 1023 = b.exponent - 1075 + (52 : ℕ) by omega, hpow, hpow]
  constructor
  · gcongr
    exact hlow
  · gcongr
    exact hhigh

end

end Binary64

namespace RealWord

section

variable (negative : Bool) {e f : Nat}

theorem toNat_ofFields (he : e < 0x200) (hf : f < 0x400000) :
    (ofFields negative e f).toNat = negative.toNat * 0x80000000 + e * 0x400000 + f := by
  have hsign := negative.toNat_le
  rw [ofFields, BitVec.toNat_ofNat, Nat.mod_eq_of_lt (by omega)]

theorem exponent_ofFields (he : e < 0x200) (hf : f < 0x400000) :
    exponent (ofFields negative e f) = e := by
  rw [exponent, toNat_ofFields negative he hf]
  omega

theorem fraction_ofFields (he : e < 0x200) (hf : f < 0x400000) :
    fraction (ofFields negative e f) = f := by
  rw [fraction, toNat_ofFields negative he hf]
  omega

theorem negative_ofFields (he : e < 0x200) (hf : f < 0x400000) :
    RealWord.negative (ofFields negative e f) = negative := by
  rw [RealWord.negative, BitVec.msb_eq_decide, toNat_ofFields negative he hf]
  cases negative <;> simp <;> omega

theorem isZero_ofFields (he : e < 0x200) (hf : f < 0x400000) :
    isZero (ofFields negative e f) = true ↔ e = 0 ∧ f = 0 := by
  rw [isZero, beq_iff_eq, toNat_ofFields negative he hf]
  omega

theorem toBinary64_ofFields (he : e < 0x200) (hf : f < 0x400000) (hne : ¬(e = 0 ∧ f = 0)) :
    toBinary64 (ofFields negative e f) =
      Binary64.ofFields negative (e + 767) (f * 0x40000000) := by
  rw [toBinary64, if_neg (mt (isZero_ofFields negative he hf).mp hne),
    negative_ofFields negative he hf, exponent_ofFields negative he hf,
    fraction_ofFields negative he hf]

end

theorem isZero_iff (r : Dword) : isZero r = true ↔ r = 0 ∨ r = 0x80000000 := by
  rw [isZero, beq_iff_eq, ← BitVec.toNat_inj, ← BitVec.toNat_inj]
  have hlt := r.isLt
  simp
  omega

/-! ## Rounding -/

section

variable {b : Binary64}

/-- The fraction rounded to 22 bits; `0x400000` if that carries. -/
def roundedFraction (b : Binary64) : Nat := (b.fraction + 0x20000000) / 0x40000000

/-- The exponent field with the carry. -/
def roundedExponent (b : Binary64) : Nat := b.exponent + roundedFraction b / 0x400000

theorem ofBinary64_of_value_ne_zero (h : b.isFinite = true) (hne : b.value ≠ 0) :
    ofBinary64 b =
      if 1278 < roundedExponent b then .error .overflow
      else if roundedExponent b < 767 then .error .underflow
      else .ok (ofFields b.negative (roundedExponent b - 767) (roundedFraction b % 0x400000)) := by
  rw [ofBinary64, if_neg (mt Binary64.value_eq_zero_iff.mpr hne), h, if_neg (by decide)]
  by_cases hzero : b.exponent = 0
  · have hlt := b.fraction_lt
    have hlow : roundedExponent b ≤ 1 := by
      rw [roundedExponent, roundedFraction]
      omega
    rw [if_pos hzero, if_neg (by omega), if_pos (by omega)]
  · rw [if_neg hzero]
    rfl

theorem mul_two_pow_eq {q : ℚ} {m : Nat} (h : q * 2 ^ 52 = m) (e : Int) :
    q * 2 ^ e = m * 2 ^ (e - 52) := by
  rw [← h, mul_assoc, ← zpow_natCast, ← zpow_add₀ two_ne_zero]
  congr 2
  omega

/-- The rounding carries from half a unit below the next power of two. -/
theorem roundedExponent_lt_iff (b : Binary64) {n : Nat} (hn : 2 ≤ n) :
    roundedExponent b < n ↔ |b.value| < (2 - 2 ^ (-23 : Int)) * 2 ^ ((n : Int) - 1024) := by
  have hbound : (2 - 2 ^ (-23 : Int) : ℚ) * 2 ^ 52 = (0x1FFFFFE0000000 : ℕ) := by norm_num
  have hlt := b.fraction_lt
  rw [mul_two_pow_eq hbound, b.abs_value_lt_iff (by constructor <;> omega) (by omega),
    roundedExponent, roundedFraction]
  omega

theorem overflow_iff (b : Binary64) :
    1278 < roundedExponent b ↔ (2 - 2 ^ (-23 : Int)) * 2 ^ (255 : Int) ≤ |b.value| := by
  rw [← not_lt, ← not_le, not_iff_not]
  exact Nat.lt_succ_iff.symm.trans (roundedExponent_lt_iff b (show 2 ≤ 1279 by decide))

theorem underflow_iff (b : Binary64) :
    roundedExponent b < 767 ↔ |b.value| < (2 - 2 ^ (-23 : Int)) * 2 ^ (-257 : Int) :=
  roundedExponent_lt_iff b (by decide)

theorem vanishes_iff (h : 767 ≤ roundedExponent b) :
    roundedExponent b - 767 = 0 ∧ roundedFraction b % 0x400000 = 0 ↔
      |b.value| < (1 + 2 ^ (-23 : Int)) * 2 ^ (-256 : Int) := by
  have hbound : (1 + 2 ^ (-23 : Int) : ℚ) * 2 ^ 52 = (0x10000020000000 : ℕ) := by norm_num
  have hlt := b.fraction_lt
  rw [mul_two_pow_eq hbound, b.abs_value_lt_iff (by constructor <;> omega) (by decide)]
  rw [roundedExponent, roundedFraction] at *
  omega

/-- The rounded fraction and exponent are those of a multiple of `2 ^ 30` next
to the significand. -/
theorem value_rounded (h : roundedExponent b < 2047) (hne : b.exponent ≠ 0) :
    (Binary64.ofFields b.negative (roundedExponent b)
      (roundedFraction b % 0x400000 * 0x40000000)).value =
      Binary64.rational b.negative ((0x400000 + roundedFraction b) * 0x40000000)
        (b.exponent - 1075) := by
  have he : roundedExponent b < 0x800 := by omega
  have hf : roundedFraction b % 0x400000 * 0x40000000 < 0x10000000000000 := by omega
  have hlt := b.fraction_lt
  have hfields := Binary64.exponent_ofFields b.negative he hf
  rw [Binary64.value_normal (by rw [hfields, roundedExponent]; omega), hfields,
    Binary64.fraction_ofFields _ he hf, Binary64.negative_ofFields _ he hf]
  by_cases hcarry : roundedFraction b < 0x400000
  · rw [roundedExponent, Nat.div_eq_of_lt hcarry, Nat.mod_eq_of_lt hcarry]
    congr 1
    omega
  · have heq : roundedFraction b = 0x400000 := by
      rw [roundedFraction] at hcarry ⊢
      omega
    -- The fraction is then zero, and one more in the exponent doubles the leading one.
    rw [roundedExponent, heq]
    have hshift := Binary64.rational_mul_two_pow b.negative 0x10000000000000 1 (b.exponent - 1075)
    norm_num at hshift ⊢
    rw [hshift]
    congr 1
    omega

/-- The significand moves by at most half of its new last place. -/
theorem abs_significand_sub_le (b : Binary64) :
    |(((0x400000 + roundedFraction b) * 0x40000000 : ℕ) : ℚ) -
      (0x10000000000000 + b.fraction : ℕ)| ≤ (0x20000000 : ℕ) := by
  have hnear : (0x400000 + roundedFraction b) * 0x40000000 ≤
        0x20000000 + (0x10000000000000 + b.fraction) ∧
      0x10000000000000 + b.fraction ≤
        0x20000000 + (0x400000 + roundedFraction b) * 0x40000000 := by
    rw [roundedFraction]
    omega
  rw [abs_sub_le_iff, sub_le_iff_le_add, sub_le_iff_le_add]
  exact ⟨by exact_mod_cast hnear.1, by exact_mod_cast hnear.2⟩

theorem abs_value_rounded_sub_le (h : roundedExponent b < 2047) (hne : b.exponent ≠ 0) :
    |(Binary64.ofFields b.negative (roundedExponent b)
      (roundedFraction b % 0x400000 * 0x40000000)).value - b.value| ≤
      2 ^ ((b.exponent : Int) - 1023 - 23) := by
  have hlast : (2 : ℚ) ^ ((b.exponent : Int) - 1023 - 23) =
      (0x20000000 : ℕ) * 2 ^ ((b.exponent : Int) - 1075) := by
    rw [show (b.exponent : Int) - 1023 - 23 = 29 + (b.exponent - 1075) by omega,
      zpow_add₀ two_ne_zero]
    norm_num
  rw [value_rounded h hne, Binary64.value_normal hne, Binary64.abs_rational_sub, hlast]
  gcongr
  exact abs_significand_sub_le b

theorem sign_value_rounded (h : roundedExponent b < 2047) (hne : b.exponent ≠ 0) :
    SignType.sign (Binary64.ofFields b.negative (roundedExponent b)
      (roundedFraction b % 0x400000 * 0x40000000)).value = SignType.sign b.value := by
  rw [value_rounded h hne, Binary64.value_normal hne, Binary64.sign_rational _ (by omega),
    Binary64.sign_rational _ (by omega)]

/-- The second pattern has the sign of the first one and is next to it: they
differ by at most half of the last place. -/
structure Near (b : Binary64) (E : Int) (c : Binary64) : Prop where
  isFinite : c.isFinite = true
  sign_eq : SignType.sign c.value = SignType.sign b.value
  abs_sub_le : |c.value - b.value| ≤ 2 ^ (E - 23)

theorem exponent_unique {x : ℚ} {E F : Int} (hE : 2 ^ E ≤ x ∧ x < 2 ^ (E + 1))
    (hF : 2 ^ F ≤ x ∧ x < 2 ^ (F + 1)) : E = F := by
  have hlt : E < F + 1 := (zpow_lt_zpow_iff_right₀ one_lt_two).mp (hE.1.trans_lt hF.2)
  have hgt : F < E + 1 := (zpow_lt_zpow_iff_right₀ one_lt_two).mp (hF.1.trans_lt hE.2)
  omega

theorem near_toBinary64 {E : Int} (hlow : 2 ^ E ≤ |b.value|) (hhigh : |b.value| < 2 ^ (E + 1))
    (hmin : 767 ≤ roundedExponent b) (hmax : roundedExponent b ≤ 1278)
    (hne : ¬(roundedExponent b - 767 = 0 ∧ roundedFraction b % 0x400000 = 0)) :
    Near b E (toBinary64
      (ofFields b.negative (roundedExponent b - 767) (roundedFraction b % 0x400000))) := by
  have hexp : b.exponent ≠ 0 := by
    have hlt := b.fraction_lt
    rw [roundedExponent, roundedFraction] at hmin
    omega
  obtain rfl := exponent_unique ⟨hlow, hhigh⟩ (Binary64.two_pow_le_abs_value hexp)
  rw [toBinary64_ofFields _ (by omega) (by omega) hne, Nat.sub_add_cancel hmin]
  refine ⟨?_, sign_value_rounded (by omega) hexp, abs_value_rounded_sub_le (by omega) hexp⟩
  rw [Binary64.isFinite, Binary64.exponent_ofFields _ (by omega) (by omega), bne_iff_ne]
  omega

end

/-- What overflows and what underflows is exact. All other patterns but zeros
are rounded to a real next to them, except just above the range of underflow:
there they become a zero, without an error. -/
theorem encoding_accuracy (b : Binary64) :
    (b.isFinite = false → ofBinary64 b = .error .overflow) ∧
    (b.isFinite = true → b.value = 0 → ofBinary64 b = .ok 0) ∧
    ∀ E : Int, b.isFinite = true → 2 ^ E ≤ |b.value| → |b.value| < 2 ^ (E + 1) →
      (ofBinary64 b = .error .overflow ↔
        (2 - 2 ^ (-23 : Int)) * 2 ^ (255 : Int) ≤ |b.value|) ∧
      (ofBinary64 b = .error .underflow ↔
        |b.value| < (2 - 2 ^ (-23 : Int)) * 2 ^ (-257 : Int)) ∧
      ∀ r, ofBinary64 b = .ok r →
        (|b.value| < (1 + 2 ^ (-23 : Int)) * 2 ^ (-256 : Int) → r = 0 ∨ r = 0x80000000) ∧
        ((1 + 2 ^ (-23 : Int)) * 2 ^ (-256 : Int) ≤ |b.value| →
          r ≠ 0 ∧ r ≠ 0x80000000 ∧ Near b E (toBinary64 r)) := by
  refine ⟨fun hfin => ?_, fun _ hzero => ?_, fun E hfin hlow hhigh => ?_⟩
  · have htop : b.exponent = 2047 := by simpa [Binary64.isFinite] using hfin
    rw [ofBinary64, if_neg (by omega), hfin]
    rfl
  · rw [ofBinary64, if_pos (Binary64.value_eq_zero_iff.mp hzero)]
  have hne : b.value ≠ 0 := by
    have hpow : (0 : ℚ) < 2 ^ E := by positivity
    exact abs_pos.mp (hpow.trans_le hlow)
  rw [ofBinary64_of_value_ne_zero hfin hne, ← overflow_iff, ← underflow_iff]
  refine ⟨?_, ?_, fun r hr => ?_⟩
  · split_ifs <;> simp [*]
  · split_ifs with hover hunder <;> simp [*]
    omega
  split_ifs at hr with hover hunder
  obtain rfl := Except.ok.inj hr
  have hmin := Nat.not_lt.mp hunder
  have hzero := isZero_ofFields b.negative (show roundedExponent b - 767 < 0x200 by omega)
    (Nat.mod_lt (roundedFraction b) (show 0 < 0x400000 by decide))
  rw [← not_lt, ← vanishes_iff hmin, ← hzero]
  refine ⟨(isZero_iff _).mp, fun hnot => ?_⟩
  obtain ⟨hplus, hminus⟩ := not_or.mp (mt (isZero_iff _).mpr hnot)
  exact ⟨hplus, hminus,
    near_toBinary64 hlow hhigh hmin (Nat.not_lt.mp hover) (mt hzero.mpr hnot)⟩

/-- The greatest pattern below two is rounded to two. -/
theorem encoding_accuracy_below_two :
    let b : Binary64 := 0x3FFFFFFFFFFFFFFF
    2 ^ (0 : Int) ≤ |b.value| ∧ |b.value| < 2 ^ (0 + 1 : Int) ∧
      ofBinary64 b = .ok 0x40400000 ∧ Near b 0 (toBinary64 0x40400000) := by
  intro b
  have hexp : (b.exponent : Int) - 1023 = 0 := by decide
  obtain ⟨hlow, hhigh⟩ := hexp ▸ Binary64.two_pow_le_abs_value (show b.exponent ≠ 0 by decide)
  obtain ⟨-, -, hreal⟩ := (encoding_accuracy b).2.2 0 (by decide) hlow hhigh
  have hlarge : (1 + 2 ^ (-23 : Int)) * 2 ^ (-256 : Int) ≤ |b.value| := by
    refine le_trans ?_ hlow
    norm_num
  exact ⟨hlow, hhigh, by decide, ((hreal _ (by decide)).2 hlarge).2.2⟩

/-- The least power of two with an exponent field is not a real: it has the
fields of zero. -/
theorem least_power_vanishes :
    let b : Binary64 := 0x2FF0000000000000
    b.isFinite = true ∧ b.value = 2 ^ (-256 : Int) ∧ ofBinary64 b = .ok 0 := by
  intro b
  have hexp : b.exponent = 767 := by decide
  have hfraction : b.fraction = 0 := by decide
  have hpositive : b.negative = false := by decide
  have hleading : (1 : ℚ) * 2 ^ 52 = (0x10000000000000 : ℕ) := by norm_num
  refine ⟨by decide, ?_, by decide⟩
  rw [Binary64.value_normal (by omega), Binary64.rational_eq, hexp, hfraction, hpositive,
    ← one_mul ((2 : ℚ) ^ (-256 : Int)), mul_two_pow_eq hleading]
  simp

end RealWord

end StackComputer
