import Mathlib.Algebra.Order.Group.Nat
import SnmpLens.Lib.Utf8

/-!
# Addresses as octets

Go's `net.IP` is four octets or sixteen, the first of them the highest, and a mask is as many. An
address is a number written in base 256, so counting one on is adding one, up to the last address
of its length, behind which comes the first (`number_increment`); and what two addresses have in
common under a mask of so many ones is what their numbers have in common when the rest is divided
off (`masked_cidrMask_iff`).
-/

namespace IpOctets

open Utf8

/-! ## Numbers -/

/-- The number an address is. -/
def number : Octets → Nat
  | [] => 0
  | b :: s => b.toNat * 256 ^ s.length + number s

/-- A number as an address of so many octets. -/
def ofNumber : Nat → Nat → Octets
  | 0, _ => []
  | len + 1, n => UInt8.ofNat (n / 256 ^ len % 256) :: ofNumber len (n % 256 ^ len)

theorem number_cons (b : UInt8) (s : Octets) :
    number (b :: s) = b.toNat * 256 ^ s.length + number s := rfl

theorem length_ofNumber (len n : Nat) : (ofNumber len n).length = len := by
  induction len generalizing n with
  | zero => rfl
  | succ len ih =>
      unfold ofNumber
      rw [List.length_cons, ih]

theorem number_lt (s : Octets) : number s < 256 ^ s.length := by
  induction s with
  | nil => exact Nat.one_pos
  | cons b s ih =>
      have hb := b.toNat_lt
      have hmul : (b.toNat + 1) * 256 ^ s.length ≤ 256 * 256 ^ s.length :=
        Nat.mul_le_mul_right _ (by omega)
      rw [Nat.succ_mul] at hmul
      unfold number
      rw [List.length_cons, Nat.pow_succ, Nat.mul_comm (256 ^ s.length)]
      omega

theorem split_number {a len v : Nat} (hv : v < 256 ^ len) :
    (a * 256 ^ len + v) / 256 ^ len = a ∧ (a * 256 ^ len + v) % 256 ^ len = v := by
  have hpos : 0 < 256 ^ len := Nat.pow_pos (by omega)
  constructor
  · rw [Nat.mul_comm, Nat.mul_add_div hpos, Nat.div_eq_of_lt hv, Nat.add_zero]
  · rw [Nat.mul_comm, Nat.mul_add_mod, Nat.mod_eq_of_lt hv]

theorem number_ofNumber {len n : Nat} (h : n < 256 ^ len) : number (ofNumber len n) = n := by
  induction len generalizing n with
  | zero =>
      have hzero : n = 0 := by simpa using h
      exact hzero.symm
  | succ len ih =>
      have hpos : 0 < 256 ^ len := Nat.pow_pos (by omega)
      have hhead : n / 256 ^ len < 256 := by
        rw [Nat.pow_succ, Nat.mul_comm] at h
        exact Nat.div_lt_of_lt_mul (by rwa [Nat.mul_comm] at h)
      unfold ofNumber number
      rw [ih (Nat.mod_lt _ hpos), length_ofNumber, Nat.mod_eq_of_lt hhead,
        UInt8.toNat_ofNat_of_lt' hhead]
      exact Nat.div_add_mod' n _

theorem ofNumber_number (s : Octets) : ofNumber s.length (number s) = s := by
  induction s with
  | nil => rfl
  | cons b s ih =>
      obtain ⟨hdiv, hmod⟩ := @split_number b.toNat s.length (number s) (number_lt s)
      show UInt8.ofNat (number (b :: s) / 256 ^ s.length % 256)
        :: ofNumber s.length (number (b :: s) % 256 ^ s.length) = _
      unfold number
      rw [hdiv, hmod, ih, Nat.mod_eq_of_lt b.toNat_lt, UInt8.ofNat_toNat]

theorem number_inj {s t : Octets} (hlen : s.length = t.length) (h : number s = number t) :
    s = t := by
  rw [← ofNumber_number s, hlen, h, ofNumber_number]

theorem number_append (s t : Octets) : number (s ++ t) = number s * 256 ^ t.length + number t := by
  induction s with
  | nil => simp [number]
  | cons b s ih =>
      rw [List.cons_append, number_cons, number_cons, ih, List.length_append, Nat.pow_add, Nat.add_mul, Nat.mul_assoc, Nat.add_assoc]

/-! ## Counting -/

/-- The loop of `incrementIP`, from the last octet on. -/
def carry : Octets → Octets
  | [] => []
  | b :: s => if 0 < b + 1 then (b + 1) :: s else (b + 1) :: carry s

/-- `incrementIP`. -/
def increment (ip : Octets) : Octets := (carry ip.reverse).reverse

theorem length_carry (s : Octets) : (carry s).length = s.length := by
  induction s with
  | nil => rfl
  | cons b s ih =>
      unfold carry
      split
      · rfl
      · rw [List.length_cons, ih, List.length_cons]

theorem length_increment (ip : Octets) : (increment ip).length = ip.length := by
  unfold increment
  rw [List.length_reverse, length_carry, List.length_reverse]

theorem number_concat (s : Octets) (b : UInt8) : number (s ++ [b]) = number s * 256 + b.toNat := by
  rw [number_append]
  show number s * 256 ^ 1 + (b.toNat * 256 ^ 0 + 0) = _
  omega

/-- **Counting one on is adding one**, and the last address is followed by the first. -/
theorem number_increment (ip : Octets) :
    number (increment ip) = (number ip + 1) % 256 ^ ip.length := by
  have hrev : ∀ s : Octets, number (carry s).reverse = (number s.reverse + 1) % 256 ^ s.length := by
    intro s
    induction s with
    | nil => rfl
    | cons b s ih =>
        have hb := b.toNat_lt
        have hsum : (b + 1).toNat = (b.toNat + 1) % 256 := UInt8.toNat_add b 1
        have hpos : (0 < b + 1) ↔ b.toNat + 1 < 256 := by
          rw [UInt8.lt_iff_toNat_lt, hsum]
          show 0 < (b.toNat + 1) % 256 ↔ _
          omega
        have hlt := number_lt s.reverse
        rw [List.length_reverse] at hlt
        unfold carry
        rw [List.reverse_cons, number_concat, List.length_cons, Nat.pow_succ]
        by_cases hcarry : b.toNat + 1 < 256
        · rw [if_pos (hpos.mpr hcarry), List.reverse_cons, number_concat, hsum,
            Nat.mod_eq_of_lt hcarry, Nat.mod_eq_of_lt]
          · omega
          · omega
        · -- the octet goes round, and the ones in front take the carry
          have hmax : b.toNat = 255 := by omega
          rw [if_neg fun h => hcarry (hpos.mp h), List.reverse_cons, number_concat, ih, hsum, hmax]
          have hstep : number s.reverse * 256 + 255 + 1 = (number s.reverse + 1) * 256 := by omega
          have hround : (255 + 1) % 256 = 0 := rfl
          rw [hstep, Nat.mul_mod_mul_right, hround, Nat.add_zero]
  have h := hrev ip.reverse
  rw [List.reverse_reverse, List.length_reverse] at h
  exact h

/-! ## Masks -/

/-- `net.CIDRMask`, of so many octets. -/
def cidrMask : Nat → Nat → Octets
  | 0, _ => []
  | len + 1, ones =>
      if 8 ≤ ones then 0xff :: cidrMask len (ones - 8)
      else ~~~((0xff : UInt8) >>> UInt8.ofNat ones) :: cidrMask len 0

/-- The octets of an address that a mask leaves. -/
def masked (ip mask : Octets) : Octets := List.zipWith (· &&& ·) ip mask

theorem length_cidrMask (len ones : Nat) : (cidrMask len ones).length = len := by
  induction len generalizing ones with
  | zero => rfl
  | succ len ih =>
      unfold cidrMask
      split
      · rw [List.length_cons, ih]
      · rw [List.length_cons, ih]

theorem masked_cons (b m : UInt8) (ip mask : Octets) :
    masked (b :: ip) (m :: mask) = (b &&& m) :: masked ip mask := rfl

theorem toNat_and_ones {ones : Nat} (h : ones < 8) (b : UInt8) :
    (b &&& ~~~((0xff : UInt8) >>> UInt8.ofNat ones)).toNat
      = b.toNat / 2 ^ (8 - ones) * 2 ^ (8 - ones) := by
  have hall : ∀ ones < 8, ∀ n < 256,
      (UInt8.ofNat n &&& ~~~((0xff : UInt8) >>> UInt8.ofNat ones)).toNat
        = n / 2 ^ (8 - ones) * 2 ^ (8 - ones) := by decide +kernel
  have hb := hall ones h b.toNat b.toNat_lt
  rwa [UInt8.ofNat_toNat] at hb

theorem and_allOnes (b : UInt8) : b &&& 0xff = b := by
  have hall : ∀ n < 256, UInt8.ofNat n &&& 0xff = UInt8.ofNat n := by decide +kernel
  have hb := hall b.toNat b.toNat_lt
  rwa [UInt8.ofNat_toNat] at hb

theorem length_masked {ip mask : Octets} (h : ip.length = mask.length) :
    (masked ip mask).length = ip.length := by
  unfold masked
  rw [List.length_zipWith, h, Nat.min_self]

theorem pow_octets (len : Nat) : 256 ^ len = 2 ^ (8 * len) := by
  rw [show (256 : Nat) = 2 ^ 8 from rfl, ← Nat.pow_mul]

theorem number_masked_none (ip : Octets) : number (masked ip (cidrMask ip.length 0)) = 0 := by
  induction ip with
  | nil => rfl
  | cons b ip ih =>
      have hb := toNat_and_ones (by decide : 0 < 8) b
      have hlt := b.toNat_lt
      rw [List.length_cons]
      unfold cidrMask
      rw [if_neg (by omega), masked_cons, number_cons, hb, ih,
        Nat.div_eq_of_lt (by omega), Nat.zero_mul, Nat.zero_mul]

/-- **A mask of so many ones divides off the rest.** -/
theorem number_masked {ip : Octets} {ones : Nat} (h : ones ≤ 8 * ip.length) :
    number (masked ip (cidrMask ip.length ones))
      = number ip / 2 ^ (8 * ip.length - ones) * 2 ^ (8 * ip.length - ones) := by
  induction ip generalizing ones with
  | nil =>
      have hzero : ones = 0 := by simpa using h
      rw [hzero]
      rfl
  | cons b ip ih =>
      rw [List.length_cons] at h ⊢
      unfold cidrMask
      by_cases hfull : 8 ≤ ones
      · -- the octet stays, and what is divided off is behind it
        have hrest := @ih (ones - 8) (by omega)
        have hones : 8 * ip.length - (ones - 8) = 8 * (ip.length + 1) - ones := by omega
        have hpow : (256 : Nat) ^ ip.length = 2 ^ (8 * (ip.length + 1) - ones) * 2 ^ (ones - 8) := by
          rw [pow_octets, ← Nat.pow_add]
          congr 1
          omega
        rw [hones] at hrest
        rw [if_pos hfull, masked_cons, number_cons, number_cons, and_allOnes, hrest,
          length_masked (length_cidrMask _ _).symm, hpow]
        generalize 2 ^ (8 * (ip.length + 1) - ones) = k at hpow ⊢
        have hpos : 0 < k := by
          rcases Nat.eq_zero_or_pos k with hk | hk
          · rw [hk, Nat.zero_mul] at hpow
            exact absurd hpow (Nat.ne_of_gt (Nat.pow_pos (by omega)))
          · exact hk
        have hfactor : b.toNat * (k * 2 ^ (ones - 8)) = k * (b.toNat * 2 ^ (ones - 8)) := by
          rw [Nat.mul_left_comm]
        rw [hfactor, Nat.mul_add_div hpos, Nat.add_mul, Nat.mul_comm k]
      · -- nothing of what is behind it is left
        have hbit := toNat_and_ones (by omega : ones < 8) b
        have hones : 8 * (ip.length + 1) - ones = 8 * ip.length + (8 - ones) := by omega
        obtain ⟨hdiv, _⟩ := @split_number b.toNat ip.length (number ip) (number_lt ip)
        rw [if_neg hfull, masked_cons, number_cons, number_cons, hbit, number_masked_none,
          length_masked (length_cidrMask _ _).symm, hones, Nat.pow_add, ← pow_octets,
          ← Nat.div_div_eq_div_mul, hdiv, Nat.add_zero, Nat.mul_assoc,
          Nat.mul_comm (2 ^ (8 - ones))]

/-- **Two addresses are one under a mask** exactly where they agree in front of the rest. -/
theorem masked_cidrMask_iff {a b : Octets} {ones : Nat} (hlen : a.length = b.length)
    (h : ones ≤ 8 * b.length) :
    masked a (cidrMask b.length ones) = masked b (cidrMask b.length ones) ↔
      number a / 2 ^ (8 * b.length - ones) = number b / 2 ^ (8 * b.length - ones) := by
  have ha : number (masked a (cidrMask b.length ones))
      = number a / 2 ^ (8 * b.length - ones) * 2 ^ (8 * b.length - ones) := by
    rw [← hlen] at h ⊢
    exact number_masked h
  have hpos : 0 < 2 ^ (8 * b.length - ones) := Nat.pow_pos (by omega)
  constructor
  · intro heq
    have hnumber := congrArg number heq
    rw [ha, number_masked h] at hnumber
    exact Nat.eq_of_mul_eq_mul_right hpos hnumber
  · intro heq
    refine number_inj ?_ ?_
    · rw [length_masked (hlen.trans (length_cidrMask _ _).symm),
        length_masked (length_cidrMask _ _).symm, hlen]
    · rw [ha, number_masked h, heq]

end IpOctets
