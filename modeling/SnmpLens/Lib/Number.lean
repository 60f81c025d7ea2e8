import Mathlib.Algebra.Group.Nat.Defs
import SnmpLens.Lib.Strings

/-!
# Whole numbers as JavaScript shows them

A number that is decoded from JSON becomes the double nearest to it, and `String` of a double is
the shortest decimal that denotes it. Below `2 ^ 53` that is the number itself; above, it need not
be. Numbers here are below `10 ^ 21`, where no exponent is written.
-/

namespace Number

open Utf8 Strings

/-- The double nearest to a number, a tie going to the even mantissa. -/
def toDouble (n : Nat) : Nat :=
  let ulp := 2 ^ (n.log2 - 52)
  let q := n / ulp
  let r := n % ulp
  if ulp < 2 * r ∨ 2 * r = ulp ∧ q % 2 = 1 then (q + 1) * ulp else q * ulp

/-- The closest of the two numbers with `k` digits in front of their zeros that a double of `d`
digits lies between, where it denotes the double. -/
def rounded (x d k : Nat) : Option Nat :=
  let unit := 10 ^ (d - k)
  let low := x / unit * unit
  let high := low + unit
  if toDouble low = x ∧ (toDouble high ≠ x ∨ x - low ≤ high - x) then some low
  else if toDouble high = x then some high
  else none

/-- The number whose digits `Number::toString` writes: the one of the fewest digits. -/
def shortest (x : Nat) : Nat :=
  let d := (formatUint x).length
  ((List.range d).findSome? fun k => rounded x d (k + 1)).getD x

/-- What a number is shown as once it has been decoded. -/
def shown (n : Nat) : Nat := shortest (toDouble n)

/-- The same of an integer. -/
def shownInt (n : Int) : Int := if n < 0 then -(shown n.natAbs) else shown n.toNat

theorem toDouble_of_lt {n : Nat} (h : n < 2 ^ 53) : toDouble n = n := by
  have hlog : n.log2 - 52 = 0 := by
    by_cases hn : n = 0
    · subst hn
      rfl
    · have := (Nat.log2_lt hn).mpr h
      omega
  have hr : ¬ (1 < 2 * (n % 1) ∨ 2 * (n % 1) = 1 ∧ n / 1 % 2 = 1) := by
    rw [Nat.mod_one]
    omega
  unfold toDouble
  rw [hlog, Nat.pow_zero, if_neg hr]
  omega

/-- A double below `2 ^ 53` is denoted by itself alone. -/
theorem lt_of_toDouble_lt {n : Nat} (h : toDouble n < 2 ^ 53) : n < 2 ^ 53 := by
  rcases Nat.lt_or_ge n (2 ^ 53) with hn | hn
  · exact hn
  · exfalso
    have hne : n ≠ 0 := by
      intro h0
      rw [h0] at hn
      cases hn
    have hlog : 53 ≤ n.log2 := (Nat.le_log2 hne).mpr hn
    have hself : 2 ^ n.log2 ≤ n := Nat.log2_self_le hne
    have hpow : 2 ^ 52 * 2 ^ (n.log2 - 52) = 2 ^ n.log2 := by
      rw [← Nat.pow_add]
      congr 1
      omega
    have hpos : 0 < 2 ^ (n.log2 - 52) := Nat.two_pow_pos _
    -- the mantissa has 53 bits, so the double is no less than the number's highest one
    have hq : 2 ^ 52 ≤ n / 2 ^ (n.log2 - 52) := by
      rw [Nat.le_div_iff_mul_le hpos, hpow]
      exact hself
    have hmul : ∀ q, 2 ^ 52 ≤ q → 2 ^ 53 ≤ q * 2 ^ (n.log2 - 52) := by
      intro q hle
      have htwo : 2 ≤ 2 ^ (n.log2 - 52) := by
        have := Nat.pow_le_pow_right (n := 2) (by decide) (show 1 ≤ n.log2 - 52 by omega)
        simpa using this
      calc 2 ^ 53 = 2 ^ 52 * 2 := by decide
        _ ≤ q * 2 ^ (n.log2 - 52) := Nat.mul_le_mul hle htwo
    unfold toDouble at h
    dsimp only at h
    split at h
    · have := hmul (n / 2 ^ (n.log2 - 52) + 1) (by omega)
      omega
    · have := hmul _ hq
      omega

theorem shortest_of_lt {x : Nat} (h : x < 2 ^ 53) : shortest x = x := by
  have hdenotes : ∀ m, toDouble m = x → m = x := by
    intro m hm
    have hlt : m < 2 ^ 53 := lt_of_toDouble_lt (hm ▸ h)
    rw [← hm, toDouble_of_lt hlt]
  have hrounded : ∀ d k m, rounded x d k = some m → m = x := by
    intro d k m hm
    unfold rounded at hm
    dsimp only at hm
    split at hm
    · rename_i hlow
      rw [← Option.some.inj hm]
      exact hdenotes _ hlow.1
    · split at hm
      · rename_i hhigh
        rw [← Option.some.inj hm]
        exact hdenotes _ hhigh
      · cases hm
  unfold shortest
  dsimp only
  cases hfound : (List.range (formatUint x).length).findSome?
      fun k => rounded x (formatUint x).length (k + 1) with
  | none => rfl
  | some m =>
      obtain ⟨k, _, hk⟩ := List.exists_of_findSome?_eq_some hfound
      exact hrounded _ _ _ hk

/-- **A number below `2 ^ 53` is shown as it is.** -/
theorem shown_of_lt {n : Nat} (h : n < 2 ^ 53) : shown n = n := by
  rw [shown, toDouble_of_lt h, shortest_of_lt h]

theorem shownInt_of_lt {n : Int} (h : n.natAbs < 2 ^ 53) : shownInt n = n := by
  unfold shownInt
  split
  · rw [shown_of_lt h]
    omega
  · rw [shown_of_lt (by omega)]
    omega

example : shown (2 ^ 60) = 1152921504606847000 := by decide

example : shown 9007199254740993 = 9007199254740992 := by decide

end Number
