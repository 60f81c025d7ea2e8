import Mathlib.Analysis.SpecialFunctions.Trigonometric.Bounds
import Mathlib.Data.Rat.Floor
import SnmpLens.Simulator.Custom

/-!
# What a simulated counter counts

`counter` of `pkg/simulator/values.go`: a count that grows at a rate which swings, by three sines of
unrelated periods, and is kept from falling to nothing. The numbers are those the expressions
denote: what a `float64` rounds off is left out. What the swing takes off a stretch of time is at
most its depth times the stretch, so the count only ever goes up (`total_mono`).
-/

namespace SnmpLens.Simulator

/-- `Swing`; the period is in nanoseconds. -/
structure Swing where
  depth : ℚ := 0
  period : Int := 0
  seed : UInt64 := 0
deriving DecidableEq, Repr

/-- `unit`: a number from 0 up to 1. -/
def unit (x : UInt64) : ℚ := (mix x >>> 11).toNat / 2 ^ 53

/-- The three sines: the share of each, and how much faster than the slowest it turns. -/
def components : List (ℚ × ℚ) := [(3 / 5, 1), (3 / 10, 27 / 10), (1 / 10, 73 / 10)]

/-- `Duration.Seconds`. -/
def seconds (d : Int) : ℚ := d / 10 ^ 9

namespace Swing

noncomputable def phase (s : Swing) (k : Nat) : ℝ :=
  2 * Real.pi * (unit (s.seed * 4 + UInt64.ofNat k) : ℚ)

/-- The period in seconds, and five minutes where there is none. -/
def periodSeconds (s : Swing) : ℚ := if seconds s.period ≤ 0 then 300 else seconds s.period

/-- `omega`, of a sine that turns so much faster. -/
noncomputable def omega (s : Swing) (speed : ℚ) : ℝ := 2 * Real.pi * speed / (s.periodSeconds : ℚ)

/-- What the `k`-th sine adds to the area. -/
noncomputable def areaOf (s : Swing) (t : ℝ) (c : (ℚ × ℚ) × Nat) : ℝ :=
  c.1.1 * (Real.cos (s.phase c.2) - Real.cos (s.omega c.1.2 * t + s.phase c.2)) / s.omega c.1.2

/-- `area`: the integral of the wave from 0 on. -/
noncomputable def area (s : Swing) (t : ℝ) : ℝ := (components.zipIdx.map (s.areaOf t)).sum

/-- The depth that is taken. -/
def taken (s : Swing) : ℚ := min (max s.depth 0) (95 / 100)

end Swing

structure Counter where
  perSecond : ℚ
  start : UInt64
  swing : Swing
  wide : Bool := false
  /-- An INTEGER that counts all the same. -/
  integer : Bool := false
deriving DecidableEq, Repr

namespace Counter

/-- What has been counted, before it wraps. -/
noncomputable def total (c : Counter) (t : ℚ) : Nat :=
  c.start.toNat + ⌊(c.perSecond : ℝ) * (t + c.swing.taken * c.swing.area t)⌋₊

/-- `count`. -/
noncomputable def count (c : Counter) (t : ℚ) : UInt64 := UInt64.ofNat (c.total t)

/-- Where the counter wraps. -/
def modulus (c : Counter) : Nat :=
  if c.wide then 2 ^ 64 else if c.integer then 2 ^ 31 else 2 ^ 32

/-- `read`, so far into the count. -/
noncomputable def read (c : Counter) (t : ℚ) : Nat :=
  if c.wide then (c.count t).toNat
  else if c.integer then (c.count t).toNat % 2 ^ 31
  else (c.count t).toUInt32.toNat

theorem read_eq (c : Counter) (t : ℚ) : c.read t = c.total t % c.modulus := by
  have hcount : (c.count t).toNat = c.total t % 2 ^ 64 := UInt64.toNat_ofNat'
  unfold read modulus
  by_cases hwide : c.wide = true
  · rw [if_pos hwide, if_pos hwide, hcount]
  · rw [if_neg hwide, if_neg hwide]
    by_cases hinteger : c.integer = true
    · rw [if_pos hinteger, if_pos hinteger, hcount]
      exact Nat.mod_mod_of_dvd _ (by decide)
    · rw [if_neg hinteger, if_neg hinteger, UInt64.toNat_toUInt32, hcount]
      exact Nat.mod_mod_of_dvd _ (by decide)

end Counter

/-! ## It only goes up -/

namespace Swing

variable {s : Swing} {t u : ℝ}

theorem omega_pos (s : Swing) {speed : ℚ} (h : 0 < speed) : 0 < s.omega speed := by
  have hperiod : 0 < s.periodSeconds := by
    unfold periodSeconds
    split
    · decide +kernel
    · linarith
  have hspeed : (0 : ℝ) < speed := by exact_mod_cast h
  have hperiod' : (0 : ℝ) < (s.periodSeconds : ℚ) := by exact_mod_cast hperiod
  unfold omega
  exact div_pos (mul_pos Real.two_pi_pos hspeed) hperiod'

/-- A sine takes no more off a stretch of time than its share of it. -/
theorem areaOf_sub (h : t ≤ u) {c : (ℚ × ℚ) × Nat} (hweight : 0 ≤ c.1.1) (hspeed : 0 < c.1.2) :
    -((c.1.1 : ℝ) * (u - t)) ≤ s.areaOf u c - s.areaOf t c := by
  have hpos := s.omega_pos hspeed
  have hcos := Real.abs_cos_sub_cos_le (s.omega c.1.2 * t + s.phase c.2)
    (s.omega c.1.2 * u + s.phase c.2)
  have harg : s.omega c.1.2 * t + s.phase c.2 - (s.omega c.1.2 * u + s.phase c.2)
      = -(s.omega c.1.2 * (u - t)) := by ring
  rw [harg, abs_neg, abs_of_nonneg (mul_nonneg hpos.le (sub_nonneg.mpr h))] at hcos
  have hlow := (abs_le.mp hcos).1
  have hdiff : s.areaOf u c - s.areaOf t c = c.1.1
      * (Real.cos (s.omega c.1.2 * t + s.phase c.2) - Real.cos (s.omega c.1.2 * u + s.phase c.2))
      / s.omega c.1.2 := by
    unfold areaOf
    ring
  have hweight' : (0 : ℝ) ≤ c.1.1 := by exact_mod_cast hweight
  rw [hdiff, le_div_iff₀ hpos]
  calc -((c.1.1 : ℝ) * (u - t)) * s.omega c.1.2
      = c.1.1 * -(s.omega c.1.2 * (u - t)) := by ring
    _ ≤ _ := mul_le_mul_of_nonneg_left hlow hweight'

/-- The shares make one, so all of them take no more than the stretch itself. -/
theorem area_sub (s : Swing) (h : t ≤ u) : -(u - t) ≤ s.area u - s.area t := by
  have h0 := @areaOf_sub s t u h ((3 / 5, 1), 0) (by norm_num) (by norm_num)
  have h1 := @areaOf_sub s t u h ((3 / 10, 27 / 10), 1) (by norm_num) (by norm_num)
  have h2 := @areaOf_sub s t u h ((1 / 10, 73 / 10), 2) (by norm_num) (by norm_num)
  have hsum : ∀ v : ℝ, s.area v = s.areaOf v ((3 / 5, 1), 0)
      + s.areaOf v ((3 / 10, 27 / 10), 1) + s.areaOf v ((1 / 10, 73 / 10), 2) := by
    intro v
    unfold area components
    simp only [List.zipIdx_cons, List.zipIdx_nil, List.map_cons, List.map_nil, List.sum_cons,
      List.sum_nil, Nat.zero_add, add_zero]
    ring
  push_cast at h0 h1 h2
  rw [hsum, hsum]
  linarith

theorem taken_nonneg (s : Swing) : 0 ≤ s.taken :=
  le_min (le_max_right _ _) (by norm_num)

theorem taken_le_one (s : Swing) : s.taken ≤ 1 :=
  (min_le_right _ _).trans (by norm_num)

/-- **The time a counter counts goes on.** -/
theorem counted_mono (s : Swing) (h : t ≤ u) : t + s.taken * s.area t ≤ u + s.taken * s.area u := by
  have hlow : (0 : ℝ) ≤ s.taken := by exact_mod_cast s.taken_nonneg
  have hhigh : (s.taken : ℝ) ≤ 1 := by exact_mod_cast s.taken_le_one
  have harea := mul_le_mul_of_nonneg_left (s.area_sub h) hlow
  have hstretch := mul_le_mul_of_nonneg_right hhigh (sub_nonneg.mpr h)
  linarith

end Swing

/-- **A counter only goes up.** -/
theorem Counter.total_mono {c : Counter} (hc : 0 ≤ c.perSecond) {t u : ℚ} (h : t ≤ u) :
    c.total t ≤ c.total u := by
  have hrate : (0 : ℝ) ≤ c.perSecond := by exact_mod_cast hc
  have htime : (t : ℝ) ≤ u := by exact_mod_cast h
  exact Nat.add_le_add_left
    (Nat.floor_le_floor (mul_le_mul_of_nonneg_left (c.swing.counted_mono htime) hrate)) _

end SnmpLens.Simulator
