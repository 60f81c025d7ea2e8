import Mathlib.Algebra.Order.Ring.Int
import Mathlib.Tactic.Linarith
import Mathlib.Tactic.Ring
import SnmpLens.Lib.Utf8

/-!
# BER with definite lengths (X.690)

What an encoding is, as a grammar: a predicate on octet strings for each kind of value. A
length is in the short form or in the long one, and the long one may be longer than it has
to be; `most` bounds how many octets it takes after the first, 126 in the standard.
An integer is in two's complement and as short as it can be.
-/

namespace Ber

open Utf8

/-! ## Numbers -/

/-- The number `v` goes on as, in base 256. -/
def base256 (v : Int) (s : Octets) : Int := s.foldl (fun v c => v * 256 + c.toNat) v

@[simp] theorem base256_nil (v : Int) : base256 v [] = v := rfl

@[simp] theorem base256_cons (v : Int) (c : UInt8) (s : Octets) :
    base256 v (c :: s) = base256 (v * 256 + c.toNat) s := rfl

/-- The octets that follow count for less than one step of what is in front. -/
theorem base256_bounds (v : Int) (s : Octets) :
    v * 256 ^ s.length ≤ base256 v s ∧ base256 v s < (v + 1) * 256 ^ s.length := by
  induction s generalizing v with
  | nil => simp
  | cons c s ih =>
      obtain ⟨hlow, hhigh⟩ := ih (v * 256 + c.toNat)
      have hc : (c.toNat : Int) < 256 := by exact_mod_cast c.toNat_lt
      have hpos : (0 : Int) < 256 ^ s.length := by positivity
      rw [base256_cons, List.length_cons, pow_succ]
      constructor
      · have hstep : v * 256 * 256 ^ s.length ≤ (v * 256 + c.toNat) * 256 ^ s.length :=
          Int.mul_le_mul_of_nonneg_right (by omega) (by omega)
        linarith
      · have hstep : (v * 256 + c.toNat + 1) * 256 ^ s.length ≤ (v + 1) * 256 * 256 ^ s.length :=
          Int.mul_le_mul_of_nonneg_right (by omega) (by omega)
        linarith

/-- An octet as a number of its own, the top bit its sign. -/
def signed (c : UInt8) : Int := c.toBitVec.toInt

theorem signed_eq (c : UInt8) :
    signed c = if c.toNat < 128 then (c.toNat : Int) else c.toNat - 256 := by
  unfold signed BitVec.toInt
  rw [UInt8.toNat_toBitVec]
  split <;> split <;> omega

/-- Two's complement. -/
def twos : Octets → Int
  | [] => 0
  | c :: s => base256 (signed c) s

/-- The first nine bits are neither all clear nor all set. -/
def IsShortest : Octets → Prop
  | [] => False
  | [_] => True
  | c :: d :: _ => ¬ (c = 0 ∧ d < 128) ∧ ¬ (c = 255 ∧ 128 ≤ d)

instance : DecidablePred IsShortest
  | [] => inferInstanceAs (Decidable False)
  | [_] => inferInstanceAs (Decidable True)
  | c :: d :: _ => inferInstanceAs (Decidable (¬ (c = 0 ∧ d < 128) ∧ ¬ (c = 255 ∧ 128 ≤ d)))

theorem length_le_of_shortest {s : Octets} (hs : IsShortest s)
    (hv : -9223372036854775808 ≤ twos s ∧ twos s < 9223372036854775808) : s.length ≤ 8 := by
  by_contra hlong
  match s, hs with
  | [_], _ => simp at hlong
  | c :: d :: rest, hs =>
      obtain ⟨hclear, hset⟩ := hs
      have hc := c.toNat_lt
      have hd := d.toNat_lt
      -- the first two octets are no number of one octet
      have hwide : 128 ≤ signed c * 256 + d.toNat ∨ signed c * 256 + d.toNat + 1 ≤ -128 := by
        have hzero : c = 0 ↔ c.toNat = 0 := UInt8.toNat_inj.symm
        have hones : c = 255 ↔ c.toNat = 255 := UInt8.toNat_inj.symm
        rw [hzero, UInt8.lt_iff_toNat_lt] at hclear
        rw [hones, UInt8.le_iff_toNat_le] at hset
        have h128 : (128 : UInt8).toNat = 128 := rfl
        rw [h128] at hclear hset
        rw [signed_eq]
        split <;> omega
      have hpow : (256 : Int) ^ 7 ≤ 256 ^ rest.length := by
        refine pow_le_pow_right₀ (by decide) ?_
        simp only [List.length_cons] at hlong
        omega
      have hseven : (256 : Int) ^ 7 = 72057594037927936 := by norm_num
      rw [hseven] at hpow
      obtain ⟨hlow, hhigh⟩ := base256_bounds (signed c * 256 + d.toNat) rest
      have htwos : twos (c :: d :: rest) = base256 (signed c * 256 + d.toNat) rest := rfl
      rw [htwos] at hv
      rcases hwide with h | h
      · nlinarith
      · nlinarith

/-! ## Grammar -/

/-- A definite length, in the short form or the long one. -/
inductive Definite (most : Nat) : Nat → Octets → Prop
  | short {n : Nat} (h : n < 128) : Definite most n [UInt8.ofNat n]
  | long {n : Nat} {digits : Octets} (hpos : 0 < digits.length) (hmost : digits.length ≤ most)
      (h : base256 0 digits = n) : Definite most n (UInt8.ofNat (128 + digits.length) :: digits)

/-- Tag, length and contents. -/
def Tlv (most : Nat) (tag : UInt8) (contents : Octets) : Octets → Prop := fun s =>
  ∃ length, Definite most contents.length length ∧ s = tag :: length ++ contents

/-- One part after the other. -/
def Parts : List (Octets → Prop) → Octets → Prop
  | [], s => s = []
  | P :: Ps, s => ∃ t u, P t ∧ Parts Ps u ∧ s = t ++ u

def Integer (most : Nat) (v : Int) : Octets → Prop := fun s =>
  ∃ contents, IsShortest contents ∧ twos contents = v ∧ Tlv most 0x02 contents s

def OctetString (most : Nat) (v : Octets) : Octets → Prop := Tlv most 0x04 v

def Sequence (most : Nat) (Ps : List (Octets → Prop)) : Octets → Prop := fun s =>
  ∃ contents, Parts Ps contents ∧ Tlv most 0x30 contents s

/-! ## Words of 64 bits -/

/-- `v<<8 | c`. -/
def shiftIn (v : BitVec 64) (c : UInt8) : BitVec 64 := v <<< 8 ||| c.toBitVec.setWidth 64

theorem toInt_shiftIn {v : BitVec 64} (hv : -2 ^ 55 ≤ v.toInt ∧ v.toInt < 2 ^ 55) (c : UInt8) :
    (shiftIn v c).toInt = v.toInt * 256 + c.toNat := by
  have hdisjoint : v <<< 8 &&& c.toBitVec.setWidth 64 = 0#64 := by
    ext i hi
    simp only [BitVec.getElem_and, BitVec.getElem_shiftLeft, BitVec.getElem_setWidth,
      BitVec.getElem_zero]
    by_cases hlow : i < 8
    · simp [hlow]
    · simp [BitVec.getLsbD_of_ge c.toBitVec i (by omega)]
  have hnat : (shiftIn v c).toNat = (v.toNat * 256 + c.toNat) % 18446744073709551616 := by
    unfold shiftIn
    rw [← BitVec.add_eq_or_of_and_eq_zero _ _ hdisjoint, BitVec.toNat_add, BitVec.toNat_shiftLeft,
      BitVec.toNat_setWidth, Nat.shiftLeft_eq, UInt8.toNat_toBitVec]
    omega
  have hc := c.toNat_lt
  have hwide := v.isLt
  rw [BitVec.toInt_eq_toNat_cond] at hv ⊢
  rw [BitVec.toInt_eq_toNat_cond, hnat]
  split at hv <;> split <;> omega

theorem toInt_foldl_shiftIn {s : Octets} {v : BitVec 64} {m : Nat}
    (hv : -2 ^ m ≤ v.toInt ∧ v.toInt < 2 ^ m) (hm : m + 8 * s.length ≤ 63) :
    (s.foldl shiftIn v).toInt = base256 v.toInt s := by
  induction s generalizing v m with
  | nil => rfl
  | cons c s ih =>
      rw [List.length_cons] at hm
      have hroom : (2 : Int) ^ m ≤ 2 ^ 55 := pow_le_pow_right₀ (by decide) (by omega)
      have hstep := toInt_shiftIn (v := v) ⟨by omega, by omega⟩ c
      have hc := c.toNat_lt
      have hgrow : (2 : Int) ^ (m + 8) = 2 ^ m * 256 := by rw [pow_add]; norm_num
      have hnext : -2 ^ (m + 8) ≤ (shiftIn v c).toInt ∧ (shiftIn v c).toInt < 2 ^ (m + 8) := by
        rw [hstep, hgrow]
        omega
      rw [List.foldl_cons, ih hnext (by omega), hstep]
      rfl

end Ber
