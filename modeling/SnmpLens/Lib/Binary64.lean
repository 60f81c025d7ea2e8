import Mathlib

/-!
# Numbers a binary64 holds exactly

Every finite binary64 is a whole number of units of `2 ^ -1074`, and a number of units is one
if its low bits, past the 53 that fit, are zero and it is not too large (`Fits`). `ofUnits` is
the canonical form of such a number. Rounding it changes nothing (`normalize_units`), it comes
back from its bits (`unpack_pack`), and so differences and sums of two of them whose exact
result fits are exact (`sub_held`, `add_held`), and their order is that of the integers
(`le_held`, `lt_held`).
-/

namespace Binary64

open Float.Model Float.Model.UnpackedFloat

/-- The binary64 format's least exponent is `-scale`. -/
def scale : Nat := 1074

/-- How many low bits of a number of units there is no room for. -/
def spare (N : Nat) : Nat := N.log2 - 52

/-- A binary64 is that many units. -/
structure Fits (N : Nat) : Prop where
  divides : 2 ^ spare N ∣ N
  bounded : spare N < 2046

theorem Fits.zero : Fits 0 := ⟨Nat.one_dvd _, by decide⟩

theorem two_pow_spare_le {N : Nat} (h : N ≠ 0) : 2 ^ spare N ≤ N :=
  (Nat.pow_le_pow_right Nat.two_pos (Nat.sub_le _ _)).trans (Nat.log2_self_le h)

/-- The mantissa of a number of units. -/
def mantissa (N : Nat) : Nat := N / 2 ^ spare N

theorem mantissa_pos {N : Nat} (h : N ≠ 0) : 0 < mantissa N :=
  Nat.div_pos (two_pow_spare_le h) (Nat.two_pow_pos _)

theorem Fits.mantissa_mul {N : Nat} (h : Fits N) : mantissa N * 2 ^ spare N = N :=
  Nat.div_mul_cancel h.divides

theorem mantissa_zero : mantissa 0 = 0 := Nat.zero_div _

/-- The sign of an integer; that of zero is positive. -/
def signOf (n : Int) : Sign := if n < 0 then .negative else .positive

theorem apply_signOf (n : Int) : (signOf n).apply n.natAbs = n := by
  unfold signOf Sign.apply
  by_cases hn : n < 0
  · simp only [if_pos hn]
    omega
  · simp only [if_neg hn]
    omega

/-- The binary64 of some units, in its canonical form. -/
def ofUnits (n : Int) : UnpackedFloat :=
  if h : n = 0 then .zero .positive
  else .finite (signOf n) (mantissa n.natAbs) (spare n.natAbs - scale)
    (mantissa_pos (Int.natAbs_ne_zero.mpr h))

@[simp] theorem ofUnits_zero : ofUnits 0 = .zero .positive := rfl

variable {n : Int}

theorem ofUnits_of_ne (h : n ≠ 0) :
    ofUnits n = .finite (signOf n) (mantissa n.natAbs) (spare n.natAbs - scale)
      (mantissa_pos (Int.natAbs_ne_zero.mpr h)) := dif_neg h

/-! ## Logarithms -/

theorem log2_mul_two_pow {m : Nat} (h : m ≠ 0) (k : Nat) : (m * 2 ^ k).log2 = m.log2 + k := by
  induction k with
  | zero => rw [Nat.pow_zero, Nat.mul_one, Nat.add_zero]
  | succ k ih =>
      have hne : m * 2 ^ k ≠ 0 := Nat.mul_ne_zero h (Nat.two_pow_pos k).ne'
      rw [Nat.pow_succ, ← Nat.mul_assoc, Nat.mul_comm _ 2, Nat.log2_two_mul hne, ih, Nat.add_assoc]

theorem log2_le_log2 {m n : Nat} (h : m ≤ n) : m.log2 ≤ n.log2 := by
  by_cases hm : m = 0
  · rw [hm, Nat.log2_zero]
    exact Nat.zero_le _
  · exact (Nat.le_log2 (by omega)).mpr ((Nat.log2_self_le hm).trans h)

theorem Fits.log2_mantissa {N : Nat} (h : Fits N) (hN : N ≠ 0) :
    (mantissa N).log2 + spare N = N.log2 := by
  rw [← log2_mul_two_pow (mantissa_pos hN).ne', h.mantissa_mul]

theorem log2_mantissa_le {N : Nat} (h : Fits N) : (mantissa N).log2 ≤ 52 := by
  by_cases hN : N = 0
  · rw [hN, mantissa_zero]
    decide
  · have hlog := h.log2_mantissa hN
    unfold spare at hlog
    omega

theorem targetExponent_eq (t : Int) : Format.binary64.targetExponent t = max (t - 53) (-1074) := rfl

/-- The exponent that is asked for is the one of the canonical form, however the number is
written. -/
theorem target_units {m : Nat} (hm : m ≠ 0) (a : Nat) :
    Format.binary64.targetExponent (totalExponent m ((a : Int) - scale))
      = (spare (m * 2 ^ a) : Int) - scale := by
  rw [targetExponent_eq, totalExponent, spare, log2_mul_two_pow hm]
  unfold scale
  omega

/-! ## Rounding what fits -/

/-- Bits that are zero leave no trace when they are shifted out. -/
theorem shiftRight_exact {m k : Nat} (h : 2 ^ k ∣ m) :
    (⟨m, false, false⟩ : ExtendedMantissa) >>> k = ⟨m / 2 ^ k, false, false⟩ := by
  induction k with
  | zero => rw [Nat.pow_zero, Nat.div_one]; rfl
  | succ k ih =>
      have hshift : (⟨m, false, false⟩ : ExtendedMantissa) >>> (k + 1)
          = ((⟨m, false, false⟩ : ExtendedMantissa) >>> k).shiftRightOne := rfl
      obtain ⟨c, rfl⟩ := h
      have hhalf : 2 ^ (k + 1) * c / 2 ^ k = 2 * c := by
        rw [Nat.pow_succ, Nat.mul_assoc, Nat.mul_div_cancel_left _ (Nat.two_pow_pos k)]
      rw [hshift, ih ⟨2 * c, by rw [Nat.pow_succ, Nat.mul_assoc]⟩, hhalf,
        Nat.mul_div_cancel_left _ (Nat.two_pow_pos _)]
      simp [ExtendedMantissa.shiftRightOne]

theorem shiftToExponent_exact {m k : Nat} (h : 2 ^ k ∣ m) (a : Nat) :
    shiftToExponent m ((a : Int) - scale) .exact ((a + k : Nat) - scale)
      = (⟨m / 2 ^ k, false, false⟩, ((a + k : Nat) : Int) - scale) := by
  have hshift : (((a + k : Nat) : Int) - scale - ((a : Int) - scale)).toNat = k := by omega
  have hexp : (a : Int) - scale + (k : Nat) = ((a + k : Nat) : Int) - scale := by omega
  unfold shiftToExponent
  rw [hshift, ← hexp]
  exact congrArg (·, (a : Int) - scale + (k : Nat)) (shiftRight_exact h)

/-- **Rounding is the identity on what fits**, for a number written with an exponent that is not
past the canonical one. -/
theorem roundWithAccuracy_units {m a N : Nat} (hN : N = m * 2 ^ a) (hle : a ≤ spare N)
    (hfits : Fits N) (s : Sign) (hne : N ≠ 0) :
    roundWithAccuracy Format.binary64 s m ((a : Int) - scale) .exact
      = .finite s (mantissa N) (spare N - scale) (mantissa_pos hne) := by
  have hm : m ≠ 0 := by
    rintro rfl
    exact hne (hN.trans (Nat.zero_mul _))
  obtain ⟨k, hk⟩ := Nat.exists_eq_add_of_le hle
  have hdvd : 2 ^ k ∣ m := by
    have hdiv := hfits.divides
    rw [hk, hN, Nat.pow_add, Nat.mul_comm (2 ^ a)] at hdiv
    exact Nat.dvd_of_mul_dvd_mul_right (Nat.two_pow_pos _) hdiv
  have hmantissa : m / 2 ^ k = mantissa N := by
    rw [mantissa, hk, hN, Nat.pow_add, Nat.mul_comm (2 ^ a),
      Nat.mul_div_mul_right _ _ (Nat.two_pow_pos a)]
  have hfirst : shiftToTargetExponent Format.binary64 m ((a : Int) - scale) .exact
      = (⟨mantissa N, false, false⟩, (spare N : Int) - scale) := by
    unfold shiftToTargetExponent
    rw [target_units hm, ← hN, hk, shiftToExponent_exact hdvd, hmantissa]
  -- What is rounded has its exponent already, so the second shift is by nothing.
  have hsecond : shiftToTargetExponent Format.binary64 (mantissa N) ((spare N : Int) - scale) .exact
      = (⟨mantissa N, false, false⟩, (spare N : Int) - scale) := by
    have hstays := @shiftToExponent_exact (mantissa N) 0 (Nat.one_dvd _) (spare N)
    unfold shiftToTargetExponent
    rw [target_units (mantissa_pos hne).ne', hfits.mantissa_mul]
    rw [Nat.add_zero, Nat.pow_zero, Nat.div_one] at hstays
    exact hstays
  have hround : (⟨mantissa N, false, false⟩ : ExtendedMantissa).roundedMantissa = mantissa N := rfl
  simp only [roundWithAccuracy, hfirst, hround, hsecond]
  exact dif_neg (mantissa_pos hne).ne'

/-- A number that fits is its own rounding, whatever exponent it is written with. -/
theorem round_units {m a N : Nat} (hN : N = m * 2 ^ a) (hfits : Fits N) (s : Sign) (hne : N ≠ 0) :
    UnpackedFloat.round Format.binary64 s m ((a : Int) - scale)
      = .finite s (mantissa N) (spare N - scale) (mantissa_pos hne) := by
  have hm : m ≠ 0 := by
    rintro rfl
    exact hne (hN.trans (Nat.zero_mul _))
  simp only [UnpackedFloat.round, target_units hm, ← hN]
  rcases Nat.le_total a (spare N) with hle | hge
  · have hnone : ((a : Int) - scale - ((spare N : Int) - scale)).toNat = 0 := by omega
    have hexp : (a : Int) - scale - (0 : Nat) = (a : Int) - scale := Int.sub_zero _
    simp only [decreaseExponent, hnone, hexp, Nat.shiftLeft_zero]
    exact roundWithAccuracy_units hN hle hfits s hne
  · obtain ⟨k, hk⟩ := Nat.exists_eq_add_of_le hge
    have hshift : ((a : Int) - scale - ((spare N : Int) - scale)).toNat = k := by omega
    have hexp : (a : Int) - scale - (k : Nat) = (spare N : Int) - scale := by omega
    simp only [decreaseExponent, hshift, hexp, Nat.shiftLeft_eq]
    refine roundWithAccuracy_units ?_ (Nat.le_refl _) hfits s hne
    rw [Nat.mul_assoc, ← Nat.pow_add, Nat.add_comm k, ← hk, hN]

theorem signOf_neg (h : n < 0) : signOf n = .negative := if_pos h

theorem signOf_nonneg (h : 0 ≤ n) : signOf n = .positive := if_neg (Int.not_lt.mpr h)

/-- **A number that fits is its own normal form.** -/
theorem normalize_units {x n : Int} {a : Nat} (hn : n = x * 2 ^ a) (hfits : Fits n.natAbs) :
    UnpackedFloat.normalize Format.binary64 x ((a : Int) - scale) .positive = ofUnits n := by
  have hpow : (0 : Int) < 2 ^ a := Int.pow_pos (by decide)
  have habs : n.natAbs = x.natAbs * 2 ^ a := by
    rw [hn, Int.natAbs_mul, Int.natAbs_pow]
    rfl
  unfold UnpackedFloat.normalize
  rcases Int.lt_trichotomy x 0 with hx | hx | hx
  · have hneg : n < 0 := by
      rw [hn]
      exact Int.mul_neg_of_neg_of_pos hx hpow
    have hnat : (-x).toNat = x.natAbs := by omega
    rw [Int.compare_eq_lt.mpr hx, ofUnits_of_ne (by omega), signOf_neg hneg]
    simp only [hnat]
    exact round_units habs hfits _ (by omega)
  · subst hx
    rw [hn, Int.zero_mul]
    rfl
  · have hpos : 0 < n := by
      rw [hn]
      exact Int.mul_pos hx hpow
    have hnat : x.toNat = x.natAbs := by omega
    rw [Int.compare_eq_gt.mpr hx, ofUnits_of_ne (by omega), signOf_nonneg hpos.le]
    simp only [hnat]
    exact round_units habs hfits _ (by omega)

/-! ## Arithmetic -/

/-- A mantissa shifted to a smaller exponent is still the same number of units. -/
theorem aligned (h : Fits n.natAbs) {a : Nat} (hle : a ≤ spare n.natAbs) :
    (signOf n).apply ((mantissa n.natAbs <<< (spare n.natAbs - a) : Nat) : Int) * 2 ^ a = n := by
  have hunits : mantissa n.natAbs <<< (spare n.natAbs - a) * 2 ^ a = n.natAbs := by
    rw [Nat.shiftLeft_eq, Nat.mul_assoc, ← Nat.pow_add, Nat.sub_add_cancel hle, h.mantissa_mul]
  have hint : ((mantissa n.natAbs <<< (spare n.natAbs - a) : Nat) : Int) * 2 ^ a = n.natAbs := by
    have hcast := congrArg (fun k : Nat => (k : Int)) hunits
    rw [Int.natCast_mul, Int.natCast_pow] at hcast
    exact hcast
  calc _ = (signOf n).apply (((mantissa n.natAbs <<< (spare n.natAbs - a) : Nat) : Int) * 2 ^ a) := by
        unfold Sign.apply
        split
        · exact Int.neg_mul _ _
        · rfl
    _ = n := by rw [hint, apply_signOf]

theorem decreaseExponent_units (m q a : Nat) :
    (decreaseExponent m ((q : Int) - scale) ((a : Int) - scale)).1 = m <<< (q - a) := by
  have hshift : ((q : Int) - scale - ((a : Int) - scale)).toNat = q - a := by omega
  simp only [decreaseExponent, hshift]

theorem min_units (q r : Nat) :
    min ((q : Int) - scale) ((r : Int) - scale) = ((min q r : Nat) : Int) - scale := by omega

/-- **A difference that fits is exact.** -/
theorem sub_units {x y : Int} (hx : Fits x.natAbs) (hy : Fits y.natAbs)
    (hfits : Fits (x - y).natAbs) :
    UnpackedFloat.sub Format.binary64 (ofUnits x) (ofUnits y) = ofUnits (x - y) := by
  by_cases hx0 : x = 0
  · subst hx0
    by_cases hy0 : y = 0
    · subst hy0
      rfl
    · have hneg : -signOf y = signOf (0 - y) := by
        unfold signOf
        rcases Int.lt_or_gt_of_ne hy0 with h | h
        · rw [if_pos h, if_neg (by omega)]
          rfl
        · rw [if_neg (by omega), if_pos (by omega)]
          rfl
      have habs : (0 - y).natAbs = y.natAbs := by omega
      rw [ofUnits_of_ne hy0, ofUnits_of_ne (n := 0 - y) (by omega), ofUnits_zero]
      simp only [UnpackedFloat.sub, hneg, habs]
  · by_cases hy0 : y = 0
    · subst hy0
      rw [Int.sub_zero, ofUnits_of_ne hx0]
      rfl
    · rw [ofUnits_of_ne hx0, ofUnits_of_ne hy0]
      simp only [UnpackedFloat.sub, min_units, decreaseExponent_units]
      refine normalize_units ?_ hfits
      rw [Int.sub_mul, aligned hx (Nat.min_le_left _ _), aligned hy (Nat.min_le_right _ _)]

/-- **A sum that fits is exact.** -/
theorem add_units {x y : Int} (hx : Fits x.natAbs) (hy : Fits y.natAbs)
    (hfits : Fits (x + y).natAbs) :
    UnpackedFloat.add Format.binary64 (ofUnits x) (ofUnits y) = ofUnits (x + y) := by
  by_cases hx0 : x = 0
  · subst hx0
    by_cases hy0 : y = 0
    · subst hy0
      rfl
    · rw [Int.zero_add, ofUnits_of_ne hy0]
      rfl
  · by_cases hy0 : y = 0
    · subst hy0
      rw [Int.add_zero, ofUnits_of_ne hx0]
      rfl
    · rw [ofUnits_of_ne hx0, ofUnits_of_ne hy0]
      simp only [UnpackedFloat.add, min_units, decreaseExponent_units]
      refine normalize_units ?_ hfits
      rw [Int.add_mul, aligned hx (Nat.min_le_left _ _), aligned hy (Nat.min_le_right _ _)]

theorem compare_magnitude {M N : Nat} (hM : Fits M) (hN : Fits N) :
    (compare ((spare M : Int) - scale) ((spare N : Int) - scale)).then
      (compare (mantissa M) (mantissa N)) = compare M N := by
  rcases Nat.lt_trichotomy (spare M) (spare N) with hlt | heq | hgt
  · have hless : M < N := by
      by_contra hge
      have hlog := log2_le_log2 (Nat.le_of_not_lt hge)
      unfold spare at hlt
      omega
    rw [Int.compare_eq_lt.mpr (by omega), Nat.compare_eq_lt.mpr hless]
    rfl
  · rw [heq, Int.compare_eq_eq.mpr rfl]
    show compare (mantissa M) (mantissa N) = compare M N
    have hpow := Nat.two_pow_pos (spare N)
    have hMmul : mantissa M * 2 ^ spare N = M := heq ▸ hM.mantissa_mul
    have hNmul := hN.mantissa_mul
    rcases Nat.lt_trichotomy (mantissa M) (mantissa N) with h | h | h
    · have hless : M < N :=
        calc M = mantissa M * 2 ^ spare N := hMmul.symm
          _ < mantissa N * 2 ^ spare N := Nat.mul_lt_mul_of_pos_right h hpow
          _ = N := hNmul
      rw [Nat.compare_eq_lt.mpr h, Nat.compare_eq_lt.mpr hless]
    · have hsame : M = N := hMmul.symm.trans ((congrArg (· * 2 ^ spare N) h).trans hNmul)
      rw [Nat.compare_eq_eq.mpr h, Nat.compare_eq_eq.mpr hsame]
    · have hless : N < M :=
        calc N = mantissa N * 2 ^ spare N := hNmul.symm
          _ < mantissa M * 2 ^ spare N := Nat.mul_lt_mul_of_pos_right h hpow
          _ = M := hMmul
      rw [Nat.compare_eq_gt.mpr h, Nat.compare_eq_gt.mpr hless]
  · have hless : N < M := by
      by_contra hge
      have hlog := log2_le_log2 (Nat.le_of_not_lt hge)
      unfold spare at hgt
      omega
    rw [Int.compare_eq_gt.mpr (by omega), Nat.compare_eq_gt.mpr hless]
    rfl

/-- **The order is that of the integers.** -/
theorem compare_units {x y : Int} (hx : Fits x.natAbs) (hy : Fits y.natAbs) :
    (ofUnits x).compare (ofUnits y) = some (compare x y) := by
  rcases Int.lt_trichotomy x 0 with hx0 | hx0 | hx0
  · rcases Int.lt_trichotomy y 0 with hy0 | hy0 | hy0
    · have hmagnitude := compare_magnitude hx hy
      rw [ofUnits_of_ne hx0.ne, ofUnits_of_ne hy0.ne, signOf_neg hx0, signOf_neg hy0]
      show some (Ordering.swap _) = _
      rw [hmagnitude, Nat.compare_swap]
      rcases Int.lt_trichotomy x y with h | h | h
      · rw [Int.compare_eq_lt.mpr h, Nat.compare_eq_lt.mpr (by omega)]
      · rw [Int.compare_eq_eq.mpr h, Nat.compare_eq_eq.mpr (by omega)]
      · rw [Int.compare_eq_gt.mpr h, Nat.compare_eq_gt.mpr (by omega)]
    · subst hy0
      rw [ofUnits_of_ne hx0.ne, signOf_neg hx0, Int.compare_eq_lt.mpr hx0]
      rfl
    · rw [ofUnits_of_ne hx0.ne, ofUnits_of_ne hy0.ne', signOf_neg hx0, signOf_nonneg hy0.le,
        Int.compare_eq_lt.mpr (hx0.trans hy0)]
      rfl
  · subst hx0
    rcases Int.lt_trichotomy y 0 with hy0 | hy0 | hy0
    · rw [ofUnits_of_ne hy0.ne, signOf_neg hy0, Int.compare_eq_gt.mpr hy0]
      rfl
    · subst hy0
      rfl
    · rw [ofUnits_of_ne hy0.ne', signOf_nonneg hy0.le, Int.compare_eq_lt.mpr hy0]
      rfl
  · rcases Int.lt_trichotomy y 0 with hy0 | hy0 | hy0
    · rw [ofUnits_of_ne hx0.ne', ofUnits_of_ne hy0.ne, signOf_nonneg hx0.le, signOf_neg hy0,
        Int.compare_eq_gt.mpr (hy0.trans hx0)]
      rfl
    · subst hy0
      rw [ofUnits_of_ne hx0.ne', signOf_nonneg hx0.le, Int.compare_eq_gt.mpr hx0]
      rfl
    · have hmagnitude := compare_magnitude hx hy
      rw [ofUnits_of_ne hx0.ne', ofUnits_of_ne hy0.ne', signOf_nonneg hx0.le, signOf_nonneg hy0.le]
      show some _ = _
      rw [hmagnitude]
      rcases Int.lt_trichotomy x y with h | h | h
      · rw [Int.compare_eq_lt.mpr h, Nat.compare_eq_lt.mpr (by omega)]
      · rw [Int.compare_eq_eq.mpr h, Nat.compare_eq_eq.mpr (by omega)]
      · rw [Int.compare_eq_gt.mpr h, Nat.compare_eq_gt.mpr (by omega)]

/-! ## The bits -/

theorem unpackSign_packComponents (s : Sign) (e : BitVec 11) (m : BitVec 52) :
    unpackSign (packComponents Format.binary64 s e m) = s.toBitVec := by
  apply BitVec.eq_of_getLsbD_eq
  intro i hi
  have hi0 : i = 0 := by omega
  subst hi0
  simp only [unpackSign, packComponents, BitVec.getLsbD_cast, BitVec.getLsbD_extractLsb]
  show (s.toBitVec ++ e ++ m).getLsbD 63 = s.toBitVec.getLsbD 0
  rw [BitVec.getLsbD_append, BitVec.getLsbD_append]
  rfl

theorem ofBitVec_toBitVec (s : Sign) : Sign.ofBitVec s.toBitVec = s := by
  cases s <;> rfl

theorem unpack_zero (s : Sign) :
    UnpackedFloat.unpack Format.binary64 (packedZero Format.binary64 s) = .zero s := by
  cases s <;> rfl

/-- The implicit bit is put back in front of the others. -/
theorem toNat_implicit {m : Nat} (h : m.log2 = 52) (hm : m ≠ 0) :
    (1#1 ++ BitVec.ofNat 52 m).toNat = m := by
  have hlow : 2 ^ 52 ≤ m := h ▸ Nat.log2_self_le hm
  have hhigh : m < 2 ^ 53 := (Nat.log2_lt hm).mp (by omega)
  rw [BitVec.toNat_append, ← Nat.shiftLeft_add_eq_or_of_lt (BitVec.isLt _), BitVec.toNat_ofNat]
  show 1 <<< 52 + m % 2 ^ 52 = m
  omega

/-- **A number that fits comes back from its bits.** -/
theorem unpack_pack (h : Fits n.natAbs) :
    UnpackedFloat.unpack Format.binary64 (UnpackedFloat.pack Format.binary64 (ofUnits n))
      = ofUnits n := by
  by_cases hn : n = 0
  · subst hn
    exact unpack_zero .positive
  have hne : n.natAbs ≠ 0 := Int.natAbs_ne_zero.mpr hn
  have hpos := mantissa_pos hne
  have hlog := h.log2_mantissa hne
  have hbiased : ((spare n.natAbs : Int) - scale + Format.binary64.exponentBias
      + Format.binary64.mantissaBitsWithoutImplicit).toNat = spare n.natAbs + 1 := by
    show ((spare n.natAbs : Int) - 1074 + 1023 + 52).toNat = spare n.natAbs + 1
    omega
  have hroom : ¬ 2 ^ Format.binary64.exponentBits ≤ spare n.natAbs + 1 + 1 := by
    show ¬ 2048 ≤ spare n.natAbs + 1 + 1
    have := h.bounded
    omega
  rw [ofUnits_of_ne hn]
  simp only [UnpackedFloat.pack, hbiased, if_neg hroom]
  by_cases hnormal : (mantissa n.natAbs).log2 + 1 = Format.binary64.mantissaBits
  · have hfull : (mantissa n.natAbs).log2 = 52 := by
      have hbits : Format.binary64.mantissaBits = 53 := rfl
      omega
    have hexp : (BitVec.ofNat 11 (spare n.natAbs + 1)).toNat = spare n.natAbs + 1 := by
      rw [BitVec.toNat_ofNat, Nat.mod_eq_of_lt]
      have := h.bounded
      omega
    have hinf : BitVec.ofNat 11 (spare n.natAbs + 1) ≠ -1#11 := by
      intro hall
      rw [hall] at hexp
      have hbound := h.bounded
      have hones : (-1#11).toNat = 2047 := rfl
      omega
    have hsub : BitVec.ofNat 11 (spare n.natAbs + 1) ≠ 0#11 := by
      intro hzero
      rw [hzero] at hexp
      exact absurd hexp (Nat.succ_ne_zero _).symm
    rw [if_pos hnormal]
    simp only [UnpackedFloat.unpack, unpackExponent_packComponents, unpackMantissa_packComponents,
      unpackSign_packComponents, ofBitVec_toBitVec, if_neg hinf, if_neg hsub, hexp,
      toNat_implicit hfull hpos.ne']
    congr 1
    show ((spare n.natAbs + 1 : Nat) : Int) - (1023 + 52) = (spare n.natAbs : Int) - 1074
    omega
  · have hshort : (mantissa n.natAbs).log2 < 52 := by
      have hbits : Format.binary64.mantissaBits = 53 := rfl
      have hle := log2_mantissa_le h
      omega
    have hnone : spare n.natAbs = 0 := by
      have hdef : spare n.natAbs = n.natAbs.log2 - 52 := rfl
      omega
    have hlow : (BitVec.ofNat 52 (mantissa n.natAbs)).toNat = mantissa n.natAbs := by
      rw [BitVec.toNat_ofNat, Nat.mod_eq_of_lt]
      exact (Nat.log2_lt hpos.ne').mp hshort
    have hsome : BitVec.ofNat 52 (mantissa n.natAbs) ≠ 0#52 := by
      intro hzero
      rw [hzero] at hlow
      exact hpos.ne hlow
    rw [if_neg hnormal]
    simp only [UnpackedFloat.unpack, unpackExponent_packComponents, unpackMantissa_packComponents,
      unpackSign_packComponents, ofBitVec_toBitVec, dif_neg hsome, hlow, hnone]
    rfl

/-! ## Integers -/

/-- An integer, in units. -/
def units (n : Int) : Int := n * 2 ^ scale

/-- A binary64 is that integer. -/
def Exact (n : Int) : Prop := Fits (units n).natAbs

/-- The binary64 nearest to an integer. -/
def held (n : Int) : Float := .ofModel (.pack (UnpackedFloat.ofInt Format.binary64 n))

theorem natAbs_units (n : Int) : (units n).natAbs = n.natAbs * 2 ^ scale := by
  have htwo : Int.natAbs 2 = 2 := rfl
  rw [units, Int.natAbs_mul, Int.natAbs_pow, htwo]

theorem units_pos : (0 : Int) < 2 ^ scale := Int.pow_pos (by decide)

/-- An integer of at most 53 bits before its trailing zeros is a binary64. -/
theorem exact_of_dvd {k : Nat} (hdvd : 2 ^ k ∣ n.natAbs) (hlt : n.natAbs < 2 ^ (k + 53))
    (hk : k ≤ 970) : Exact n := by
  unfold Exact
  rw [natAbs_units]
  by_cases hn : n.natAbs = 0
  · rw [hn, Nat.zero_mul]
    exact .zero
  have hlog : n.natAbs.log2 < k + 53 := (Nat.log2_lt hn).mpr hlt
  have hspare : spare (n.natAbs * 2 ^ scale) = n.natAbs.log2 + 1022 := by
    have hscale : scale = 1074 := rfl
    rw [spare, log2_mul_two_pow hn]
    omega
  refine ⟨?_, by omega⟩
  rw [hspare]
  have hle : n.natAbs.log2 + 1022 ≤ k + scale := by
    have hscale : scale = 1074 := rfl
    omega
  refine (Nat.pow_dvd_pow 2 hle).trans ?_
  rw [Nat.pow_add]
  exact Nat.mul_dvd_mul_right hdvd _

theorem exact_of_le (h : n.natAbs ≤ 2 ^ 53) : Exact n := by
  rcases Nat.lt_or_eq_of_le h with hlt | heq
  · exact exact_of_dvd (k := 0) (Nat.one_dvd _) hlt (by decide)
  · rw [show (2 : Nat) ^ 53 = 9007199254740992 from rfl] at heq
    exact exact_of_dvd (k := 1) (by omega) (by omega) (by decide)

theorem ofInt_units (h : Exact n) :
    UnpackedFloat.ofInt Format.binary64 n = ofUnits (units n) := by
  have hnormal := normalize_units (x := n) (a := scale) rfl h
  rw [Int.sub_self] at hnormal
  exact hnormal

theorem unpack_held (h : Exact n) : (held n).toModel.unpack = ofUnits (units n) := by
  show UnpackedFloat.unpack Format.binary64 (UnpackedFloat.pack Format.binary64
    (UnpackedFloat.ofInt Format.binary64 n)) = _
  rw [ofInt_units h, unpack_pack h]

section

variable {x y : Int} (hx : Exact x) (hy : Exact y)
include hx hy

/-- **A difference that a binary64 holds is exact.** -/
theorem sub_held (hfits : Exact (x - y)) : held x - held y = held (x - y) := by
  have hunits : units x - units y = units (x - y) := (Int.sub_mul x y _).symm
  show Float.ofModel (.pack (UnpackedFloat.sub Format.binary64 (held x).toModel.unpack
    (held y).toModel.unpack)) = .ofModel (.pack (UnpackedFloat.ofInt Format.binary64 (x - y)))
  rw [unpack_held hx, unpack_held hy, sub_units hx hy (hunits ▸ hfits), hunits, ofInt_units hfits]

/-- **A sum that a binary64 holds is exact.** -/
theorem add_held (hfits : Exact (x + y)) : held x + held y = held (x + y) := by
  have hunits : units x + units y = units (x + y) := (Int.add_mul x y _).symm
  show Float.ofModel (.pack (UnpackedFloat.add Format.binary64 (held x).toModel.unpack
    (held y).toModel.unpack)) = .ofModel (.pack (UnpackedFloat.ofInt Format.binary64 (x + y)))
  rw [unpack_held hx, unpack_held hy, add_units hx hy (hunits ▸ hfits), hunits, ofInt_units hfits]

theorem compare_held :
    (held x).toModel.unpack.compare (held y).toModel.unpack = some (compare x y) := by
  rw [unpack_held hx, unpack_held hy, compare_units hx hy]
  unfold units
  rcases Int.lt_trichotomy x y with h | h | h
  · rw [Int.compare_eq_lt.mpr h, Int.compare_eq_lt.mpr (Int.mul_lt_mul_of_pos_right h units_pos)]
  · rw [Int.compare_eq_eq.mpr h, Int.compare_eq_eq.mpr (congrArg (· * 2 ^ scale) h)]
  · rw [Int.compare_eq_gt.mpr h, Int.compare_eq_gt.mpr (Int.mul_lt_mul_of_pos_right h units_pos)]

theorem le_held : held x ≤ held y ↔ x ≤ y := by
  have hle : held x ≤ held y ↔
      ((held x).toModel.unpack.compare (held y).toModel.unpack).any (·.isLE) = true :=
    decide_eq_true_iff
  rw [hle, compare_held hx hy, Option.any_some]
  rcases Int.lt_trichotomy x y with h | h | h
  · rw [Int.compare_eq_lt.mpr h]
    exact iff_of_true rfl h.le
  · rw [Int.compare_eq_eq.mpr h]
    exact iff_of_true rfl h.le
  · rw [Int.compare_eq_gt.mpr h]
    exact iff_of_false Bool.false_ne_true (Int.not_le.mpr h)

theorem lt_held : held x < held y ↔ x < y := by
  have hlt : held x < held y ↔
      ((held x).toModel.unpack.compare (held y).toModel.unpack == some .lt) = true :=
    decide_eq_true_iff
  rw [hlt, compare_held hx hy, beq_iff_eq, Option.some.injEq]
  exact Int.compare_eq_lt

end

/-! ## Signs -/

@[simp] theorem zero_eq_held : (0 : Float) = held 0 := by decide

theorem unpack_held_zero : (held 0).toModel.unpack = .zero .positive := by
  rw [unpack_held (exact_of_le (by decide)), units, Int.zero_mul, ofUnits_zero]

/-- What is at least zero is not below it; infinities and what is not a number are compared
too. -/
theorem not_lt_of_zero_le {x : Float} (h : held 0 ≤ x) : ¬ x < held 0 := by
  have hle : ((held 0).toModel.unpack.compare x.toModel.unpack).any (·.isLE) = true :=
    decide_eq_true_iff.mp h
  intro hlt
  have hlt' : (x.toModel.unpack.compare (held 0).toModel.unpack == some .lt) = true :=
    decide_eq_true_iff.mp hlt
  rw [unpack_held_zero] at hle hlt'
  cases hx : x.toModel.unpack with
  | notANumber => simp [hx, UnpackedFloat.compare] at hle
  | infinity s => cases s <;> simp [hx, UnpackedFloat.compare] at hle hlt'
  | zero s => simp [hx, UnpackedFloat.compare] at hlt'
  | finite s m e _ => cases s <;> simp [hx, UnpackedFloat.compare] at hle hlt'

theorem not_lt_of_zero_lt {x : Float} (h : held 0 < x) : ¬ x < held 0 := by
  have hgt : ((held 0).toModel.unpack.compare x.toModel.unpack == some .lt) = true :=
    decide_eq_true_iff.mp h
  intro hlt
  have hlt' : (x.toModel.unpack.compare (held 0).toModel.unpack == some .lt) = true :=
    decide_eq_true_iff.mp hlt
  rw [unpack_held_zero] at hgt hlt'
  cases hx : x.toModel.unpack with
  | notANumber => simp [hx, UnpackedFloat.compare] at hgt
  | infinity s => cases s <;> simp [hx, UnpackedFloat.compare] at hgt hlt'
  | zero s => simp [hx, UnpackedFloat.compare] at hlt'
  | finite s m e _ => cases s <;> simp [hx, UnpackedFloat.compare] at hgt hlt'

end Binary64
