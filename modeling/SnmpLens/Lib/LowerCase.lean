import Mathlib.Algebra.GroupWithZero.Nat
import SnmpLens.Lib.Utf16

/-!
# Lower-casing a text

`String.prototype.toLowerCase`: the code points of a text are mapped one by one, except for a capital
sigma, whose small letter depends on the letters around it. Unicode's data are a table. What is used
of it is that no code point has a mapping that is shorter than itself, and that half of a surrogate
pair stays as it is, so a text that keeps its length keeps the length of every piece
(`length_slice`).
-/

namespace LowerCase

open Utf16

def isHigh (u : UInt16) : Bool := 0xd800 ≤ u && u ≤ 0xdbff

def isLow (u : UInt16) : Bool := 0xdc00 ≤ u && u ≤ 0xdfff

/-- The code point of a surrogate pair. -/
def pairOf (high low : UInt16) : Nat :=
  0x10000 + (high.toNat - 0xd800) * 0x400 + (low.toNat - 0xdc00)

/-- The code points of a text; half of a pair alone is one of its own. -/
def points : Units → List Nat
  | high :: low :: rest =>
      if isHigh high && isLow low then pairOf high low :: points rest
      else high.toNat :: points (low :: rest)
  | [u] => [u.toNat]
  | [] => []

/-- The units of a code point. -/
def unitsOf (c : Nat) : Units :=
  if c < 0x10000 then [UInt16.ofNat c]
  else
    [UInt16.ofNat (0xd800 + (c - 0x10000) / 0x400), UInt16.ofNat (0xdc00 + (c - 0x10000) % 0x400)]

/-- What Unicode says of lower case. -/
structure CaseTable where
  lower : Nat → List Nat
  cased : Nat → Bool
  ignorable : Nat → Bool
  grows : ∀ c, (unitsOf c).length ≤ ((lower c).flatMap unitsOf).length
  half : ∀ c, 0xd800 ≤ c → c ≤ 0xdfff → lower c = [c]

def capitalSigma : Nat := 0x3a3

namespace CaseTable

variable (t : CaseTable)

/-- Whether a cased letter is the next one but for what is ignored. -/
def letter : List Nat → Bool
  | [] => false
  | c :: rest => t.cased c || (t.ignorable c && letter rest)

/-- The mapping of a code point behind `before`, read backwards, and in front of `after`. -/
def lowerAt (before : List Nat) (c : Nat) (after : List Nat) : List Nat :=
  if c = capitalSigma then
    if t.letter before && !t.letter after then [0x3c2] else [0x3c3]
  else t.lower c

def lowerPoints : List Nat → List Nat → List Nat
  | _, [] => []
  | before, c :: after => t.lowerAt before c after ++ lowerPoints (c :: before) after

def toLowerCase (s : Units) : Units := (t.lowerPoints [] (points s)).flatMap unitsOf

end CaseTable

/-! ## Lengths -/

def width (c : Nat) : Nat := (unitsOf c).length

theorem width_unit (u : UInt16) : width u.toNat = 1 := by
  have := u.toNat_lt
  unfold width unitsOf
  rw [if_pos (by omega)]
  rfl

theorem width_pair (high low : UInt16) : width (pairOf high low) = 2 := by
  unfold width unitsOf
  rw [if_neg (by unfold pairOf; omega)]
  rfl

theorem length_eq (s : Units) : s.length = ((points s).map width).sum := by
  fun_induction points s with
  | case1 high low rest _ ih =>
      rw [List.map_cons, List.sum_cons, width_pair, ← ih, List.length_cons, List.length_cons]
      omega
  | case2 high low rest _ ih =>
      rw [List.map_cons, List.sum_cons, width_unit, ← ih, List.length_cons]
      omega
  | case3 u => rw [List.map_singleton, List.sum_singleton, width_unit, List.length_singleton]
  | case4 => rfl

namespace CaseTable

variable (t : CaseTable)

/-- How wide a code point is in lower case. -/
def lowerWidth (c : Nat) : Nat :=
  if c = capitalSigma then 1 else ((t.lower c).flatMap unitsOf).length

theorem width_le (c : Nat) : width c ≤ t.lowerWidth c := by
  unfold lowerWidth
  split
  · rename_i hsigma
    rw [hsigma]
    exact Nat.le_refl 1
  · exact t.grows c

theorem length_lowerAt (before after : List Nat) (c : Nat) :
    ((t.lowerAt before c after).flatMap unitsOf).length = t.lowerWidth c := by
  unfold lowerAt lowerWidth
  split
  · split
    · rfl
    · rfl
  · rfl

theorem length_lowerPoints (before cs : List Nat) :
    ((t.lowerPoints before cs).flatMap unitsOf).length = (cs.map t.lowerWidth).sum := by
  induction cs generalizing before with
  | nil => rfl
  | cons c cs ih =>
      unfold lowerPoints
      rw [List.flatMap_append, List.length_append, length_lowerAt, ih, List.map_cons, List.sum_cons]

theorem length_toLowerCase (s : Units) :
    (t.toLowerCase s).length = ((points s).map t.lowerWidth).sum := t.length_lowerPoints [] (points s)

theorem sum_le (cs : List Nat) : (cs.map width).sum ≤ (cs.map t.lowerWidth).sum := by
  induction cs with
  | nil => exact Nat.le_refl 0
  | cons c cs ih =>
      have := t.width_le c
      rw [List.map_cons, List.map_cons, List.sum_cons, List.sum_cons]
      omega

theorem length_le (s : Units) : s.length ≤ (t.toLowerCase s).length := by
  rw [length_toLowerCase, length_eq]
  exact t.sum_le _

theorem sum_eq_iff (cs : List Nat) : (cs.map t.lowerWidth).sum = (cs.map width).sum ↔
    ∀ c ∈ cs, t.lowerWidth c = width c := by
  induction cs with
  | nil => exact ⟨fun _ c hc => absurd hc List.not_mem_nil, fun _ => rfl⟩
  | cons c cs ih =>
      have hc := t.width_le c
      have hcs := t.sum_le cs
      rw [List.map_cons, List.map_cons, List.sum_cons, List.sum_cons, List.forall_mem_cons, ← ih]
      omega

theorem length_eq_iff (s : Units) : (t.toLowerCase s).length = s.length ↔
    ∀ c ∈ points s, t.lowerWidth c = width c := by
  rw [length_toLowerCase, length_eq]
  exact t.sum_eq_iff _

end CaseTable

/-! ## Pieces of a text -/

/-- Half of a surrogate pair. -/
def Half (c : Nat) : Prop := 0xd800 ≤ c ∧ c ≤ 0xdfff

theorem half_of_high {u : UInt16} (h : isHigh u = true) : Half u.toNat := by
  unfold isHigh at h
  rw [Bool.and_eq_true, decide_eq_true_eq, decide_eq_true_eq, UInt16.le_iff_toNat_le,
    UInt16.le_iff_toNat_le] at h
  have hlow : (0xd800 : UInt16).toNat = 0xd800 := rfl
  have hhigh : (0xdbff : UInt16).toNat = 0xdbff := rfl
  unfold Half
  omega

theorem half_of_low {u : UInt16} (h : isLow u = true) : Half u.toNat := by
  unfold isLow at h
  rw [Bool.and_eq_true, decide_eq_true_eq, decide_eq_true_eq, UInt16.le_iff_toNat_le,
    UInt16.le_iff_toNat_le] at h
  have hlow : (0xdc00 : UInt16).toNat = 0xdc00 := rfl
  have hhigh : (0xdfff : UInt16).toNat = 0xdfff := rfl
  unfold Half
  omega

theorem CaseTable.lowerWidth_half (t : CaseTable) {c : Nat} (h : Half c) :
    t.lowerWidth c = width c := by
  unfold lowerWidth
  obtain ⟨hlo, hhi⟩ := h
  rw [if_neg (by unfold capitalSigma; omega), t.half c hlo hhi, List.flatMap_singleton]
  rfl

theorem points_low {low : UInt16} (h : isLow low = true) (rest : Units) :
    points (low :: rest) = low.toNat :: points rest := by
  have hhigh : isHigh low = false := by
    unfold isHigh
    unfold isLow at h
    rw [Bool.and_eq_true, decide_eq_true_eq, decide_eq_true_eq] at h
    rw [Bool.and_eq_false_iff]
    right
    rw [decide_eq_false_iff_not, UInt16.le_iff_toNat_le]
    have hle := UInt16.le_iff_toNat_le.mp h.1
    have hlo : (0xdc00 : UInt16).toNat = 0xdc00 := rfl
    have hhi : (0xdbff : UInt16).toNat = 0xdbff := rfl
    omega
  cases rest with
  | nil => rfl
  | cons u rest =>
      rw [points, hhigh]
      rfl

theorem mem_points_cons {c : Nat} {s : Units} (u : UInt16) (h : c ∈ points s) :
    c ∈ points (u :: s) ∨ Half c := by
  cases s with
  | nil => cases h
  | cons low rest =>
      rw [points]
      split
      · rename_i hpair
        have hlow := ((Bool.and_eq_true _ _).mp hpair).2
        rw [points_low hlow] at h
        rcases List.mem_cons.mp h with rfl | h
        · exact .inr (half_of_low hlow)
        · exact .inl (List.mem_cons_of_mem _ h)
      · exact .inl (List.mem_cons_of_mem _ h)

theorem mem_points_behind {c : Nat} {s : Units} (front : Units) (h : c ∈ points s) :
    c ∈ points (front ++ s) ∨ Half c := by
  induction front with
  | nil => exact .inl h
  | cons u front ih =>
      rcases ih with ih | ih
      · exact mem_points_cons u ih
      · exact .inr ih

theorem mem_points_front {c : Nat} {s : Units} (back : Units) (h : c ∈ points s) :
    c ∈ points (s ++ back) ∨ Half c := by
  fun_induction points s with
  | case1 high low rest hpair ih =>
      rw [List.cons_append, List.cons_append, points, if_pos hpair, List.mem_cons]
      rcases List.mem_cons.mp h with hc | h
      · exact .inl (.inl hc)
      · rcases ih h with ih | ih
        · exact .inl (.inr ih)
        · exact .inr ih
  | case2 high low rest hpair ih =>
      rw [List.cons_append, List.cons_append, points, if_neg hpair]
      rcases List.mem_cons.mp h with rfl | h
      · exact .inl List.mem_cons_self
      · rcases ih h with ih | ih
        · exact .inl (List.mem_cons_of_mem _ ih)
        · exact .inr ih
  | case3 u =>
      rw [List.mem_singleton] at h
      subst h
      cases back with
      | nil => exact .inl List.mem_cons_self
      | cons low rest =>
          rw [List.singleton_append, points]
          split
          · rename_i hpair
            exact .inr (half_of_high ((Bool.and_eq_true _ _).mp hpair).1)
          · exact .inl List.mem_cons_self
  | case4 => cases h

/-- **A text that keeps its length in lower case keeps that of its pieces.** -/
theorem CaseTable.length_slice (t : CaseTable) {s : Units}
    (h : (t.toLowerCase s).length = s.length) (i n : Nat) :
    (t.toLowerCase ((s.drop i).take n)).length = ((s.drop i).take n).length := by
  rw [t.length_eq_iff] at h ⊢
  intro c hc
  rcases mem_points_front ((s.drop i).drop n) hc with hc | hc
  · rw [List.take_append_drop] at hc
    rcases mem_points_behind (s.take i) hc with hc | hc
    · rw [List.take_append_drop] at hc
      exact h c hc
    · exact t.lowerWidth_half hc
  · exact t.lowerWidth_half hc

/-! ## A part of the table -/

/-- Latin and Greek capitals, and the one letter whose small letter is two code points. -/
def lettersLower (c : Nat) : List Nat :=
  if 0x41 ≤ c ∧ c ≤ 0x5a then [c + 0x20]
  else if 0x391 ≤ c ∧ c ≤ 0x3a9 ∧ c ≠ 0x3a2 then [c + 0x20]
  else if c = 0x130 then [0x69, 0x307]
  else [c]

theorem width_small {c : Nat} (h : c < 0x10000) : (unitsOf c).length = 1 := by
  unfold unitsOf
  rw [if_pos h]
  rfl

def letters : CaseTable where
  lower := lettersLower
  cased c := decide (0x41 ≤ c ∧ c ≤ 0x5a ∨ 0x61 ≤ c ∧ c ≤ 0x7a ∨ 0x391 ≤ c ∧ c ≤ 0x3c9 ∨ c = 0x130)
  ignorable c := decide (c = 0x27 ∨ c = 0x2e ∨ c = 0x3a ∨ c = 0x307)
  grows c := by
    unfold lettersLower
    split
    · refine Nat.le_of_eq ?_
      rw [List.flatMap_singleton, width_small (by omega), width_small (by omega)]
    split
    · refine Nat.le_of_eq ?_
      rw [List.flatMap_singleton, width_small (by omega), width_small (by omega)]
    split
    · rw [width_small (by omega)]
      exact Nat.le_add_left 1 1
    · refine Nat.le_of_eq ?_
      rw [List.flatMap_singleton]
  half c hlo hhi := by
    unfold lettersLower
    rw [if_neg (by omega), if_neg (by omega), if_neg (by omega)]

end LowerCase
