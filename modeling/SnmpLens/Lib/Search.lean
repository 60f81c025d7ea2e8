import Mathlib.Data.List.TakeWhile

/-!
# Binary search

`slices.BinarySearchFunc`: a half-open range `[i, j)` is cut in the middle until it
is empty. What the loop keeps is that everything left of `i` is below the target and
nothing from `j` on is, which is why the answer only depends on the list being cut
in two by `below`: the elements below first, the others behind them.
-/

namespace Search

variable {α : Type*}

/-- The loop, at most `fuel` rounds of it. -/
def loop (below : α → Bool) (xs : List α) : Nat → Nat → Nat → Nat
  | 0, i, _ => i
  | fuel + 1, i, j =>
      if i < j then
        let h := (i + j) / 2
        if (xs[h]?).any below then loop below xs fuel (h + 1) j else loop below xs fuel i h
      else i

/-- The first position that is not below the target. -/
def search (below : α → Bool) (xs : List α) : Nat := loop below xs xs.length 0 xs.length

/-- Where the elements below the target end. -/
def CutAt (below : α → Bool) (xs : List α) (n : Nat) : Prop :=
  n ≤ xs.length ∧ ∀ i x, xs[i]? = some x → (below x = true ↔ i < n)

variable {below : α → Bool} {xs : List α}

theorem loop_eq {n : Nat} (hcut : CutAt below xs n) :
    ∀ {fuel i j : Nat}, j ≤ i + fuel → i ≤ n → n ≤ j → j ≤ xs.length →
      loop below xs fuel i j = n := by
  intro fuel
  induction fuel with
  | zero =>
      intro i j hfuel hi hj _
      show i = n
      omega
  | succ fuel ih =>
      intro i j hfuel hi hj hlen
      unfold loop
      by_cases hij : i < j
      · rw [if_pos hij]
        dsimp only
        have hh : (i + j) / 2 < xs.length := by omega
        rw [List.getElem?_eq_getElem hh, Option.any_some]
        have hside := hcut.2 _ _ (List.getElem?_eq_getElem hh)
        by_cases hb : below xs[(i + j) / 2] = true
        · rw [if_pos hb]
          have hlt := hside.mp hb
          exact ih (by omega) (by omega) hj hlen
        · rw [if_neg hb]
          have hge : n ≤ (i + j) / 2 := by
            by_contra hlt
            exact hb (hside.mpr (by omega))
          exact ih (by omega) hi hge (by omega)
      · rw [if_neg hij]
        omega

/-- **Binary search finds the cut.** -/
theorem search_eq {n : Nat} (hcut : CutAt below xs n) :
    search below xs = n :=
  loop_eq hcut (by omega) (by omega) hcut.1 (Nat.le_refl _)

theorem cutAt_append {front back : List α} (hf : ∀ x ∈ front, below x = true)
    (hb : ∀ x ∈ back, below x = false) : CutAt below (front ++ back) front.length := by
  refine ⟨by simp, fun i x hx => ?_⟩
  by_cases hi : i < front.length
  · rw [List.getElem?_append_left hi] at hx
    simp [hf x (List.mem_of_getElem? hx), hi]
  · rw [List.getElem?_append_right (by omega)] at hx
    simp [hb x (List.mem_of_getElem? hx), hi]

/-- The loop that looks for the last position below the target, over a closed range, at most `fuel`
rounds of it. -/
def lastLoop (below : α → Bool) (xs : List α) : Nat → Nat → Nat → Nat
  | 0, lo, _ => lo
  | fuel + 1, lo, hi =>
      if lo < hi then
        let mid := (lo + hi + 1) / 2
        if (xs[mid]?).any below then lastLoop below xs fuel mid hi
        else lastLoop below xs fuel lo (mid - 1)
      else lo

/-- **The last position below the target is in front of the cut.** -/
theorem lastLoop_eq {n : Nat} (hcut : CutAt below xs (n + 1)) :
    ∀ {fuel lo hi : Nat}, hi ≤ lo + fuel → lo ≤ n → n ≤ hi → hi < xs.length →
      lastLoop below xs fuel lo hi = n := by
  intro fuel
  induction fuel with
  | zero =>
      intro lo hi hfuel hlo hhi _
      show lo = n
      omega
  | succ fuel ih =>
      intro lo hi hfuel hlo hhi hlen
      unfold lastLoop
      by_cases hrange : lo < hi
      · rw [if_pos hrange]
        dsimp only
        have hmid : (lo + hi + 1) / 2 < xs.length := by omega
        rw [List.getElem?_eq_getElem hmid, Option.any_some]
        have hside := hcut.2 _ _ (List.getElem?_eq_getElem hmid)
        by_cases hb : below xs[(lo + hi + 1) / 2] = true
        · rw [if_pos hb]
          have hlt := hside.mp hb
          exact ih (by omega) (by omega) hhi hlen
        · rw [if_neg hb]
          have hge : n + 1 ≤ (lo + hi + 1) / 2 := by
            by_contra hlt
            exact hb (hside.mpr (by omega))
          exact ih (by omega) hlo (by omega) (by omega)
      · rw [if_neg hrange]
        omega

/-- In a list where nothing below the target follows anything else, the cut is real. -/
theorem split_of_pairwise (h : xs.Pairwise fun x y => below y = true → below x = true) :
    ∃ front back, xs = front ++ back ∧ (∀ x ∈ front, below x = true) ∧
      ∀ x ∈ back, below x = false := by
  refine ⟨xs.takeWhile below, xs.dropWhile below, List.takeWhile_append_dropWhile.symm,
    fun x hx => List.mem_takeWhile_imp hx, ?_⟩
  intro x hx
  cases hd : xs.dropWhile below with
  | nil => exact absurd (hd ▸ hx) (by simp)
  | cons y rest =>
      have hy : below y = false := by
        have := List.head_dropWhile_not below (l := xs) (by simp [hd])
        simpa [hd] using this
      have hpair : (y :: rest).Pairwise fun x y => below y = true → below x = true :=
        hd ▸ h.sublist (List.dropWhile_sublist below)
      rw [hd] at hx
      rcases List.mem_cons.mp hx with rfl | hx
      · exact hy
      · cases hbx : below x with
        | false => rfl
        | true => exact absurd ((List.pairwise_cons.mp hpair).1 x hx hbx) (by simp [hy])

end Search
