import Mathlib.Data.List.Basic

/-!
# Texts by their UTF-16 code units

A JavaScript string is a list of code units: its length, its indices and its slices count them, and
half of a surrogate pair is as good a unit as any other.
-/

namespace Utf16

abbrev Units := List UInt16

/-- The unit of a character that has one. -/
def unit (c : Char) : UInt16 := UInt16.ofNat c.toNat

/-- The units of a character. -/
def encode (c : Char) : Units :=
  if c.toNat < 0x10000 then [unit c]
  else
    let n := c.toNat - 0x10000
    [UInt16.ofNat (0xd800 + n / 0x400), UInt16.ofNat (0xdc00 + n % 0x400)]

def units (s : String) : Units := s.toList.flatMap encode

/-! ## Searching -/

/-- The search of `indexOf` in what is left of a text from a position on. -/
def indexFrom (needle : Units) : Nat → Units → Option Nat
  | i, [] => if needle = [] then some i else none
  | i, c :: rest => if needle.isPrefixOf (c :: rest) then some i else indexFrom needle (i + 1) rest

def indexOf (hay needle : Units) (start : Nat) : Option Nat :=
  indexFrom needle start (hay.drop start)

variable {needle : Units} {m : Nat}

theorem indexFrom_some {i : Nat} {s : Units} (h : indexFrom needle i s = some m) :
    ∃ k, m = i + k ∧ needle <+: s.drop k ∧ ∀ j, j < k → ¬ needle <+: s.drop j := by
  induction s generalizing i with
  | nil =>
      unfold indexFrom at h
      split at h
      · rename_i hnil
        cases h
        exact ⟨0, rfl, hnil ▸ List.nil_prefix, fun j hj => absurd hj (Nat.not_lt_zero j)⟩
      · cases h
  | cons c rest ih =>
      unfold indexFrom at h
      split at h
      · rename_i hprefix
        cases h
        exact ⟨0, rfl, List.isPrefixOf_iff_prefix.mp hprefix, fun j hj => absurd hj (Nat.not_lt_zero j)⟩
      · rename_i hnot
        obtain ⟨k, hm, hprefix, hfirst⟩ := ih h
        refine ⟨k + 1, by omega, hprefix, ?_⟩
        intro j hj
        cases j with
        | zero => exact fun hprefix => hnot (List.isPrefixOf_iff_prefix.mpr hprefix)
        | succ j => exact hfirst j (Nat.lt_of_succ_lt_succ hj)

theorem indexFrom_none {i : Nat} {s : Units} (h : indexFrom needle i s = none) (k : Nat) :
    ¬ needle <+: s.drop k := by
  induction s generalizing i k with
  | nil =>
      unfold indexFrom at h
      split at h
      · cases h
      · rename_i hne
        rw [List.drop_nil]
        exact fun hprefix => hne (List.prefix_nil.mp hprefix)
  | cons c rest ih =>
      unfold indexFrom at h
      split at h
      · cases h
      · rename_i hnot
        cases k with
        | zero => exact fun hprefix => hnot (List.isPrefixOf_iff_prefix.mpr hprefix)
        | succ k => exact ih h k

end Utf16
