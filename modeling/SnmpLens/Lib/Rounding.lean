import Mathlib.Algebra.Order.Field.Power
import Mathlib.Data.Int.Log
import Mathlib.Data.Rat.Floor
import Mathlib.Tactic.FieldSimp
import Mathlib.Tactic.Linarith
import Mathlib.Tactic.Positivity

/-!
# Rounding to the nearest binary64

On the rational numbers: to 53 bits, and of two numbers that are as near to the even one. What no
binary64 is large enough for is rounded as if there was one.
-/

namespace Rounding

/-- The nearest integer. -/
def roundEven (x : ℚ) : Int :=
  if x - ⌊x⌋ < 1 / 2 then ⌊x⌋ else if 1 / 2 < x - ⌊x⌋ then ⌊x⌋ + 1 else ⌊x⌋ + ⌊x⌋ % 2

/-- How far the binary64s around a number are apart. -/
def ulp (x : ℚ) : ℚ := 2 ^ max (Int.log 2 |x| - 52) (-1074)

def nearest (x : ℚ) : ℚ := roundEven (x / ulp x) * ulp x

/-! ## The nearest integer -/

theorem floor_le_roundEven (x : ℚ) : ⌊x⌋ ≤ roundEven x ∧ roundEven x ≤ ⌊x⌋ + 1 := by
  unfold roundEven
  split_ifs <;> omega

theorem roundEven_near (x : ℚ) : x - 1 / 2 ≤ roundEven x ∧ (roundEven x : ℚ) ≤ x + 1 / 2 := by
  have hlow := Int.floor_le x
  have hhigh := Int.lt_floor_add_one x
  have hparity : (0 : ℚ) ≤ (⌊x⌋ % 2 : Int) ∧ ((⌊x⌋ % 2 : Int) : ℚ) ≤ 1 := by
    constructor
    · exact_mod_cast Int.emod_nonneg ⌊x⌋ (by decide)
    · exact_mod_cast (by omega : ⌊x⌋ % 2 ≤ 1)
  unfold roundEven
  split_ifs <;> push_cast <;> constructor <;> linarith [hparity.1, hparity.2]

variable {x : ℚ}

theorem le_roundEven {k : Int} (h : k ≤ x) : k ≤ roundEven x :=
  (Int.le_floor.mpr h).trans (floor_le_roundEven x).1

theorem roundEven_le {k : Int} (h : x ≤ k) : roundEven x ≤ k := by
  rcases h.lt_or_eq with h | rfl
  · have := Int.floor_lt.mpr h
    have := (floor_le_roundEven x).2
    omega
  · unfold roundEven
    rw [Int.floor_intCast, sub_self, if_pos (by norm_num)]

theorem roundEven_eq {k : Int} (hlow : (k : ℚ) - 1 / 2 < x) (hhigh : x < k + 1 / 2) :
    roundEven x = k := by
  obtain ⟨h, h'⟩ := roundEven_near x
  have hle : (roundEven x : ℚ) < (k + 1 : Int) := by push_cast; linarith
  have hge : ((k - 1 : Int) : ℚ) < roundEven x := by push_cast; linarith
  have := Int.cast_lt.mp hle
  have := Int.cast_lt.mp hge
  omega

/-! ## The nearest binary64 -/

theorem ulp_pos (x : ℚ) : 0 < ulp x := zpow_pos two_pos _

@[simp] theorem nearest_zero : nearest 0 = 0 := by
  unfold nearest
  rw [zero_div, roundEven_le (k := 0) (by simp) |>.antisymm (le_roundEven (by simp)), Int.cast_zero,
    zero_mul]

theorem nearest_nonneg (h : 0 ≤ x) : 0 ≤ nearest x := by
  have hround : 0 ≤ roundEven (x / ulp x) :=
    le_roundEven (by rw [Int.cast_zero]; exact div_nonneg h (ulp_pos x).le)
  exact mul_nonneg (Int.cast_nonneg hround) (ulp_pos x).le

/-- Half of what is between two binary64s, at the least. -/
def tiny : ℚ := 2 ^ (-1075 : Int)

theorem tiny_nonneg : 0 ≤ tiny := (zpow_pos two_pos _).le

theorem tiny_le : tiny ≤ 1 / 2 ^ 100 := by
  rw [tiny, one_div, ← zpow_natCast, ← zpow_neg]
  exact zpow_le_zpow_right₀ one_le_two (by decide)

theorem nearest_le_ulp (x : ℚ) : nearest x ≤ x + ulp x / 2 := by
  have h := mul_le_mul_of_nonneg_right (roundEven_near (x / ulp x)).2 (ulp_pos x).le
  rw [add_mul, div_mul_cancel₀ _ (ulp_pos x).ne'] at h
  unfold nearest
  linarith

theorem two_zpow_log (h : 0 < x) : (2 : ℚ) ^ (Int.log 2 |x| - 52) ≤ x / 2 ^ 52 := by
  have hlog := Int.zpow_log_le_self (b := 2) (by decide) h
  rw [abs_of_pos h, zpow_sub₀ two_ne_zero]
  exact div_le_div_of_nonneg_right hlog (by positivity)

/-- **What rounding adds** is one part in `2 ^ 53`, or next to nothing. -/
theorem nearest_le (h : 0 ≤ x) : nearest x ≤ x + x / 2 ^ 53 + tiny := by
  rcases h.lt_or_eq with h | rfl
  · have hulp : ulp x ≤ x / 2 ^ 52 + 2 * tiny := by
      have htiny : (2 : ℚ) * tiny = 2 ^ (-1074 : Int) := by
        unfold tiny
        rw [← zpow_one_add₀ two_ne_zero]
        rfl
      rw [htiny, ulp]
      rcases max_choice (Int.log 2 |x| - 52) (-1074) with hmax | hmax <;> rw [hmax]
      · exact (two_zpow_log h).trans (le_add_of_nonneg_right (by positivity))
      · exact le_add_of_nonneg_left (by positivity)
    have := nearest_le_ulp x
    linarith
  · rw [nearest_zero, zero_div, zero_add, zero_add]
    exact tiny_nonneg

/-- **A binary64 is not rounded past.** -/
theorem nearest_le_of_held {x y : ℚ} (hx : 0 ≤ x) (h : x ≤ y) (hy : nearest y = y) :
    nearest x ≤ y := by
  rcases hx.lt_or_eq with hx | rfl
  · have hlog : Int.log 2 |x| ≤ Int.log 2 |y| := by
      rw [abs_of_pos hx, abs_of_pos (hx.trans_le h)]
      exact Int.log_mono_right hx h
    -- what is between two binary64s around `y` is so many times what is around `x`
    obtain ⟨n, hn⟩ : ∃ n : Nat, ulp y = 2 ^ n * ulp x := by
      refine ⟨(max (Int.log 2 |y| - 52) (-1074) - max (Int.log 2 |x| - 52) (-1074)).toNat, ?_⟩
      unfold ulp
      rw [← zpow_natCast, ← zpow_add₀ two_ne_zero]
      congr 1
      omega
    have hwhole : y = ((roundEven (y / ulp y) * 2 ^ n : Int) : ℚ) * ulp x := by
      conv_lhs => rw [← hy, nearest, hn, ← mul_assoc]
      push_cast
      rw [← hn]
    have hle : x / ulp x ≤ ((roundEven (y / ulp y) * 2 ^ n : Int) : ℚ) := by
      rw [div_le_iff₀ (ulp_pos x), ← hwhole]
      exact h
    rw [hwhole]
    exact mul_le_mul_of_nonneg_right (Int.cast_le.mpr (roundEven_le hle)) (ulp_pos x).le
  · rw [nearest_zero]
    exact h

/-- The nearest number, when it is known which power of two is below. -/
theorem nearest_eq {e k : Int} (he : -1022 ≤ e) (hlow : 2 ^ e ≤ x) (hhigh : x < 2 ^ (e + 1))
    (hnear : ((k : ℚ) - 1 / 2) * 2 ^ (e - 52) < x ∧ x < (k + 1 / 2) * 2 ^ (e - 52)) :
    nearest x = k * 2 ^ (e - 52) := by
  have hpos : 0 < x := lt_of_lt_of_le (by positivity) hlow
  have hlog : Int.log 2 |x| = e := by
    rw [abs_of_pos hpos]
    have h := (Int.zpow_le_iff_le_log (b := 2) (by decide) hpos).mp hlow
    have h' := (Int.lt_zpow_iff_log_lt (b := 2) (by decide) hpos).mp hhigh
    omega
  have hulp : ulp x = 2 ^ (e - 52) := by
    rw [ulp, hlog, max_eq_left (by omega)]
  have hround : roundEven (x / ulp x) = k := by
    rw [hulp]
    exact roundEven_eq ((lt_div_iff₀ (by positivity)).mpr hnear.1)
      ((div_lt_iff₀ (by positivity)).mpr hnear.2)
  rw [nearest, hround, hulp]

end Rounding
