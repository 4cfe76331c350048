import Mathlib
import StackComputer.RealWord

/-!
# Rounding

Rationals are rounded to integers, toward zero or to the nearest one, and to a
number of significant bits. Numbers that need no more bits are not changed.
-/

namespace StackComputer

namespace Rounding

def towardZero (q : ℚ) : ℤ := if q < 0 then -⌊-q⌋ else ⌊q⌋

/-- The nearest integer; of two, the one away from zero. -/
def nearest (q : ℚ) : ℤ := if q < 0 then -⌊-q + 1 / 2⌋ else ⌊q + 1 / 2⌋

/-- The unit of the last of some significant bits. -/
def lastPlace (bits : ℕ) (q : ℚ) : ℚ := 2 ^ (Int.log 2 |q| + 1 - bits)

/-- The nearest number with so many significant bits; of two, the one away from zero. -/
def significant (bits : ℕ) (q : ℚ) : ℚ := nearest (q / lastPlace bits q) * lastPlace bits q

theorem towardZero_intCast (n : ℤ) : towardZero n = n := by
  rw [towardZero, Int.floor_intCast, ← Int.cast_neg, Int.floor_intCast, neg_neg, ite_self]

theorem nearest_intCast (n : ℤ) : nearest n = n := by
  have hfloor : ∀ n : ℤ, ⌊(n : ℚ) + 1 / 2⌋ = n := by
    intro n
    rw [Int.floor_intCast_add]
    norm_num
  rw [nearest, hfloor, ← Int.cast_neg, hfloor, neg_neg, ite_self]

theorem nearest_neg (q : ℚ) : nearest (-q) = -nearest q := by
  rcases lt_trichotomy q 0 with hneg | rfl | hpos
  · rw [nearest, if_neg (neg_pos.mpr hneg).not_gt, nearest, if_pos hneg, neg_neg]
  · rw [neg_zero, ← Int.cast_zero, nearest_intCast, neg_zero]
  · rw [nearest, if_pos (neg_neg_of_pos hpos), neg_neg, nearest, if_neg hpos.not_gt]

theorem nearest_div_two_pow (m k : ℕ) :
    nearest (m / 2 ^ (k + 1)) = ((m + 2 ^ k) / 2 ^ (k + 1) : ℕ) := by
  have hnonneg : ¬(m : ℚ) / 2 ^ (k + 1) < 0 := not_lt.mpr (by positivity)
  have hhalf : (m : ℚ) / 2 ^ (k + 1) + 1 / 2 =
      ((m + 2 ^ k : ℤ) : ℚ) / (2 ^ (k + 1) : ℕ) := by
    push_cast
    field_simp
    ring
  rw [nearest, if_neg hnonneg, hhalf, Rat.floor_intCast_div_natCast]
  push_cast
  rfl

theorem abs_nearest_sub_le (q : ℚ) : |nearest q - q| ≤ 1 / 2 := by
  have hfloor : ∀ q : ℚ, |(⌊q + 1 / 2⌋ : ℚ) - q| ≤ 1 / 2 := by
    intro q
    have hle := Int.floor_le (q + 1 / 2)
    have hlt := Int.lt_floor_add_one (q + 1 / 2)
    rw [abs_sub_le_iff]
    constructor <;> linarith
  rw [nearest]
  split_ifs
  · have hneg := hfloor (-q)
    rwa [← abs_neg, neg_sub', neg_neg, ← Int.cast_neg] at hneg
  · exact hfloor q

/-- Rounding does not pass an integer. -/
theorem abs_nearest_le {q : ℚ} {n : ℤ} (h : |q| ≤ n) : |nearest q| ≤ n := by
  have hnear := abs_nearest_sub_le q
  have hlt : (|nearest q| : ℚ) < n + 1 := by
    calc (|nearest q| : ℚ) = |q + (nearest q - q)| := by rw [add_sub_cancel]
      _ ≤ |q| + |nearest q - q| := abs_add_le _ _
      _ < n + 1 := by linarith
  exact_mod_cast Int.lt_add_one_iff.mp (by exact_mod_cast hlt)

section

variable {bits : ℕ} {q : ℚ}

theorem lastPlace_pos (bits : ℕ) (q : ℚ) : 0 < lastPlace bits q := by
  rw [lastPlace]
  positivity

/-- Multiples of the last place are not changed. -/
theorem significant_eq_self {k : ℤ} (h : q / lastPlace bits q = k) : significant bits q = q := by
  rw [significant, h, nearest_intCast, ← h, div_mul_cancel₀ _ (lastPlace_pos bits q).ne']

end

section

variable {bits : ℕ} {n : ℤ}

/-- An integer with zeros up to the last place is not changed. -/
theorem significant_of_dvd {k : ℕ} (hdvd : 2 ^ k ∣ n) (hk : Int.log 2 |(n : ℚ)| + 1 - bits ≤ k) :
    significant bits n = n := by
  obtain ⟨c, hc⟩ := hdvd
  obtain ⟨j, hj⟩ := Int.eq_ofNat_of_zero_le (sub_nonneg.mpr hk)
  have hscale : (2 : ℚ) ^ j * lastPlace bits n = 2 ^ k := by
    rw [lastPlace, ← zpow_natCast, ← zpow_add₀ two_ne_zero, ← hj, sub_add_cancel, zpow_natCast]
  refine significant_eq_self (k := c * 2 ^ j) ?_
  rw [div_eq_iff (lastPlace_pos _ _).ne']
  push_cast
  rw [mul_assoc, hscale, mul_comm]
  exact_mod_cast hc

theorem log_lt_of_abs_lt (hne : n ≠ 0) {k : ℕ} (h : |n| < 2 ^ k) : Int.log 2 |(n : ℚ)| < k := by
  have hpos : (0 : ℚ) < |(n : ℚ)| := abs_pos.mpr (Int.cast_ne_zero.mpr hne)
  rw [← Int.lt_zpow_iff_log_lt one_lt_two hpos, zpow_natCast]
  exact_mod_cast h

/-- Integers of no more bits are not changed, nor the next power of two. -/
theorem significant_intCast (hbits : 0 < bits) (h : |n| ≤ 2 ^ bits) : significant bits n = n := by
  by_cases hzero : n = 0
  · exact significant_of_dvd (k := 1) (hzero ▸ dvd_zero _) (by simp [hzero])
  rcases h.lt_or_eq with hlt | heq
  · have hlog := log_lt_of_abs_lt hzero hlt
    exact significant_of_dvd (k := 0) (one_dvd _) (by omega)
  · have hlog := log_lt_of_abs_lt hzero
      (heq.trans_lt (pow_lt_pow_right₀ one_lt_two bits.lt_succ_self))
    exact significant_of_dvd ((dvd_abs _ _).mp heq.symm.dvd) (by omega)

/-- An integer is rounded to one, and not past a power of two. -/
theorem exists_significant_eq_intCast (hbits : 0 < bits) {k : ℕ} (h : |n| ≤ 2 ^ k) :
    ∃ v : ℤ, significant bits n = v ∧ |v| ≤ 2 ^ k := by
  by_cases hlog : Int.log 2 |(n : ℚ)| + 1 - bits ≤ 0
  · exact ⟨n, significant_of_dvd (k := 0) (one_dvd _) hlog, h⟩
  obtain ⟨j, hj⟩ := Int.eq_ofNat_of_zero_le (not_le.mp hlog).le
  have hlast : lastPlace bits n = (2 ^ j : ℤ) := by
    rw [lastPlace, hj]
    push_cast
    exact zpow_natCast _ _
  have hpos : (0 : ℚ) < 2 ^ j := by positivity
  have hle : j ≤ k := by
    have hne : n ≠ 0 := by
      rintro rfl
      simp only [Int.cast_zero, abs_zero, Int.log_zero_right] at hlog
      omega
    have hlog := log_lt_of_abs_lt hne (h.trans_lt (pow_lt_pow_right₀ one_lt_two k.lt_succ_self))
    omega
  have hquotient : |(n : ℚ) / lastPlace bits n| ≤ (2 ^ (k - j) : ℤ) := by
    rw [hlast]
    push_cast
    rw [abs_div, abs_of_pos hpos, div_le_iff₀ hpos, ← pow_add, Nat.sub_add_cancel hle]
    exact_mod_cast h
  refine ⟨nearest (n / lastPlace bits n) * 2 ^ j, by rw [significant, hlast]; push_cast; rfl, ?_⟩
  calc |nearest (n / lastPlace bits n) * 2 ^ j|
      = |nearest (n / lastPlace bits n)| * 2 ^ j := by
        rw [abs_mul, abs_of_pos (show (0 : ℤ) < 2 ^ j by positivity)]
    _ ≤ 2 ^ (k - j) * 2 ^ j := by
        gcongr
        exact abs_nearest_le hquotient
    _ = 2 ^ k := by rw [← pow_add, Nat.sub_add_cancel hle]

end

end Rounding

namespace RealWord

open Rounding

theorem truncate_eq_towardZero (q : ℚ) : truncate q = towardZero q := by
  rw [truncate, towardZero]
  split_ifs with hneg
  · have hnum : 0 ≤ -q.num := by
      rw [neg_nonneg]
      exact (Rat.num_neg.mpr hneg).le
    rw [Rat.floor_def', Rat.num_neg_eq_neg_num, Rat.den_neg_eq_den,
      ← Int.tdiv_eq_ediv_of_nonneg hnum, Int.neg_tdiv, neg_neg]
  · rw [Rat.floor_def', Int.tdiv_eq_ediv_of_nonneg (Rat.num_nonneg.mpr (not_lt.mp hneg))]

theorem round_eq_nearest (q : ℚ) : round q = nearest q := by
  have hfloor : ∀ q : ℚ, 0 ≤ q → (2 * q.num + q.den).tdiv (2 * q.den) = ⌊q + 1 / 2⌋ := by
    intro q hq
    have hnum := Rat.num_nonneg.mpr hq
    have hfraction : q + 1 / 2 = ((2 * q.num + q.den : ℤ) : ℚ) / (2 * q.den : ℕ) := by
      have hden : (q.den : ℚ) ≠ 0 := by exact_mod_cast q.den_nz
      conv_lhs => rw [← Rat.num_div_den q]
      push_cast
      field_simp
    rw [hfraction, Rat.floor_intCast_div_natCast, Int.tdiv_eq_ediv_of_nonneg (by omega)]
    push_cast
    rfl
  rw [round, nearest]
  split_ifs with hneg
  · have hsign := Int.sign_eq_neg_one_of_neg (Rat.num_neg.mpr hneg)
    rw [← hfloor (-q) (neg_nonneg.mpr hneg.le), hsign, Rat.num_neg_eq_neg_num,
      Rat.den_neg_eq_den, ← Int.neg_tdiv]
    congr 1
    ring
  · rw [← hfloor q (not_lt.mp hneg)]
    rcases (not_lt.mp hneg).eq_or_lt with rfl | hpos
    · rfl
    · rw [Int.sign_eq_one_of_pos (Rat.num_pos.mpr hpos), one_mul]

end RealWord

end StackComputer
