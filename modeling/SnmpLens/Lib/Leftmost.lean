import Mathlib.Data.List.Basic

/-!
# Leftmost matches that do not overlap

A scan from the left takes every match it comes to and goes on behind it. What it finds is
determined by where the matches are (`From`), and it only looks at some of the positions (`Visited`):
two predicates that agree on those have the same leftmost matches, and no others do.
-/

namespace Leftmost

variable {p q : Nat → Prop} {n start i m : Nat} {found : List Nat}

/-- The matches of a scan that starts at a position. -/
structure From (p : Nat → Prop) (n start : Nat) (found : List Nat) : Prop where
  apart : found.Pairwise fun a b => a + n ≤ b
  within : ∀ m ∈ found, start ≤ m
  real : ∀ m ∈ found, p m
  covers : ∀ i, start ≤ i → p i → ∃ m ∈ found, m ≤ i ∧ i < m + n

namespace From

theorem nil (h : ∀ i, start ≤ i → ¬p i) : From p n start [] where
  apart := List.Pairwise.nil
  within m hm := by cases hm
  real m hm := by cases hm
  covers i hi hp := absurd hp (h i hi)

/-- A match, and none in front of it. -/
theorem cons (h : From p n (m + n) found) (hstart : start ≤ m) (hm : p m)
    (hfirst : ∀ i, start ≤ i → i < m → ¬p i) : From p n start (m :: found) where
  apart := List.Pairwise.cons h.within h.apart
  within i hi := by
    rcases List.mem_cons.mp hi with rfl | hi
    · exact hstart
    · have := h.within i hi
      omega
  real i hi := by
    rcases List.mem_cons.mp hi with rfl | hi
    · exact hm
    · exact h.real i hi
  covers i hi hp := by
    rcases Nat.lt_or_ge i m with hlt | hge
    · exact absurd hp (hfirst i hi hlt)
    · rcases Nat.lt_or_ge i (m + n) with hlt | hge'
      · exact ⟨m, List.mem_cons_self, hge, hlt⟩
      · obtain ⟨m', hm', hcover⟩ := h.covers i hge' hp
        exact ⟨m', List.mem_cons_of_mem _ hm', hcover⟩

/-- No match, and the scan goes on at the next position. -/
theorem skip (h : From p n (start + 1) found) (hnone : ¬p start) : From p n start found where
  apart := h.apart
  within m hm := Nat.le_of_succ_le (h.within m hm)
  real := h.real
  covers i hi hp := by
    rcases Nat.eq_or_lt_of_le hi with rfl | hlt
    · exact absurd hp hnone
    · exact h.covers i hlt hp

theorem eq_nil_iff (h : From p n 0 found) : found = [] ↔ ∀ i, ¬p i := by
  constructor
  · intro hnil i hi
    obtain ⟨m, hm, _⟩ := h.covers i (Nat.zero_le i) hi
    rw [hnil] at hm
    cases hm
  · intro hnone
    cases found with
    | nil => rfl
    | cons m found => exact absurd (h.real m List.mem_cons_self) (hnone m)

end From

/-! ## Which positions decide -/

/-- The positions a scan looks at. -/
inductive Visited (p : Nat → Prop) (n : Nat) : Nat → Prop
  | zero : Visited p n 0
  | step {i : Nat} : Visited p n i → ¬p i → Visited p n (i + 1)
  | jump {i : Nat} : Visited p n i → p i → Visited p n (i + n)

theorem visited_of_none (h : ∀ i, ¬p i) (i : Nat) : Visited p n i := by
  induction i with
  | zero => exact .zero
  | succ i ih => exact .step ih (h i)

/-- Two matches are not inside of one another. -/
theorem From.outside (h : From p n start found) {m' : Nat} (hm : m ∈ found) (hm' : m' ∈ found) :
    ¬(m' < m ∧ m < m' + n) := by
  intro hinside
  have hapart := List.pairwise_iff_getElem.mp h.apart
  obtain ⟨i, hi, rfl⟩ := List.mem_iff_getElem.mp hm
  obtain ⟨j, hj, rfl⟩ := List.mem_iff_getElem.mp hm'
  rcases Nat.lt_trichotomy i j with hlt | rfl | hlt
  · have := hapart i j hi hj hlt
    omega
  · omega
  · have := hapart j i hj hi hlt
    omega

/-- It does not look inside of what it has found. -/
theorem Visited.outside (hi : Visited p n i) (h : From p n 0 found) :
    ∀ m ∈ found, ¬(m < i ∧ i < m + n) := by
  induction hi with
  | zero =>
      intro m _ hinside
      omega
  | @step i _ hnot ih =>
      intro m hm hinside
      rcases Nat.eq_or_lt_of_le (Nat.le_of_lt_succ hinside.1) with rfl | hlt
      · exact hnot (h.real m hm)
      · exact ih m hm ⟨hlt, by omega⟩
  | @jump i _ hp ih =>
      intro m hm hinside
      obtain ⟨m', hm', hle, hlt⟩ := h.covers i (Nat.zero_le i) hp
      rcases Nat.eq_or_lt_of_le hle with rfl | hlt'
      · exact h.outside hm hm' (by omega)
      · exact ih m' hm' ⟨hlt', hlt⟩

/-- What it looks at is a match only where it finds one. -/
theorem Visited.mem (hi : Visited p n i) (h : From p n 0 found) (hp : p i) : i ∈ found := by
  obtain ⟨m, hm, hle, hlt⟩ := h.covers i (Nat.zero_le i) hp
  rcases Nat.eq_or_lt_of_le hle with rfl | hlt'
  · exact hm
  · exact absurd ⟨hlt', hlt⟩ (hi.outside h m hm)

theorem From.visited_or (h : From p n 0 found) (i : Nat) :
    Visited p n i ∨ ∃ m ∈ found, m < i ∧ i < m + n := by
  induction i using Nat.strongRecOn with
  | ind i ih =>
      cases i with
      | zero => exact .inl .zero
      | succ i =>
          -- the position in front is the start of a match, inside of one or neither
          have hfound : ∀ m ∈ found, m ≤ i → i < m + n →
              Visited p n (i + 1) ∨ ∃ m ∈ found, m < i + 1 ∧ i + 1 < m + n := by
            intro m hm hle hlt
            rcases Nat.lt_or_ge (i + 1) (m + n) with hin | hend
            · exact .inr ⟨m, hm, by omega, hin⟩
            · have heq : i + 1 = m + n := by omega
              rcases ih m (by omega) with hvisited | ⟨m', hm', hinside⟩
              · exact .inl (heq ▸ .jump hvisited (h.real m hm))
              · exact absurd hinside (h.outside hm hm')
          rcases ih i (Nat.lt_succ_self i) with hvisited | ⟨m, hm, hlt, hlt'⟩
          · by_cases hp : p i
            · obtain ⟨m, hm, hle, hlt⟩ := h.covers i (Nat.zero_le i) hp
              exact hfound m hm hle hlt
            · exact .inl (.step hvisited hp)
          · exact hfound m hm (by omega) hlt'

theorem From.visited (h : From p n 0 found) (hm : m ∈ found) : Visited p n m := by
  rcases h.visited_or m with hvisited | ⟨m', hm', hinside⟩
  · exact hvisited
  · exact absurd hinside (h.outside hm hm')

theorem Visited.congr (hagree : ∀ i, Visited q n i → (p i ↔ q i)) (hi : Visited p n i) :
    Visited q n i := by
  induction hi with
  | zero => exact .zero
  | step _ hnot ih => exact .step ih fun hq => hnot ((hagree _ ih).mpr hq)
  | jump _ hp ih => exact .jump ih ((hagree _ ih).mp hp)

/-- **What one predicate finds are the leftmost matches of another one exactly where the two agree on
what a scan of the other one looks at.** -/
theorem From.iff_agree (h : From p n 0 found) :
    From q n 0 found ↔ ∀ i, Visited q n i → (p i ↔ q i) := by
  constructor
  · intro hq i hi
    constructor
    · intro hp
      obtain ⟨m, hm, hle, hlt⟩ := h.covers i (Nat.zero_le i) hp
      rcases Nat.eq_or_lt_of_le hle with rfl | hlt'
      · exact hq.real m hm
      · exact absurd ⟨hlt', hlt⟩ (hi.outside hq m hm)
    · intro hqi
      exact h.real i (hi.mem hq hqi)
  · intro hagree
    refine ⟨h.apart, h.within, ?_, ?_⟩
    · intro m hm
      exact (hagree m ((h.visited hm).congr hagree)).mp (h.real m hm)
    · intro i _ hqi
      rcases h.visited_or i with hvisited | ⟨m, hm, hlt, hlt'⟩
      · exact h.covers i (Nat.zero_le i) ((hagree i (hvisited.congr hagree)).mpr hqi)
      · exact ⟨m, hm, Nat.le_of_lt hlt, hlt'⟩

end Leftmost
