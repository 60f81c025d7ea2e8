import Mathlib.Data.Int.Order.Basic

/-!
# The last number a probe takes

A binary search over a closed range `[lo, hi]`: the number in the middle is probed, what it gave
is kept when it was taken, and the search goes on above it or below it. A probe may fail, and
then so does the search. What the loop keeps is that the number below `lo` was taken and the one
above `hi` was not (`Known`), which is why nothing is asked of the probe (`search_outcome`);
where what is above a refused number is refused, the number found is the last one.
-/

namespace Bisect

variable {ε β : Type*}

/-- The loop, at most `fuel` rounds of it. -/
def search (probe : Nat → Except ε (Option β)) : Nat → Int → Int → Option β → Except ε (Option β)
  | 0, _, _, best => .ok best
  | fuel + 1, lo, hi, best =>
      if hi < lo then .ok best
      else
        match probe ((lo + hi) / 2).toNat with
        | .error e => .error e
        | .ok (some b) => search probe fuel ((lo + hi) / 2 + 1) hi (some b)
        | .ok none => search probe fuel lo ((lo + hi) / 2 - 1) best

/-- What is known while a range from `floor` to `top` is searched. -/
structure Known (probe : Nat → Except ε (Option β)) (floor top lo hi : Int) (best : Option β) :
    Prop where
  nonneg : 0 ≤ floor
  floor_le : floor ≤ lo
  le_top : hi ≤ top
  near : lo ≤ hi + 1 ∨ top < floor
  taken : best = none ∧ lo = floor ∨
    ∃ b, best = some b ∧ floor < lo ∧ lo ≤ top + 1 ∧ probe (lo - 1).toNat = .ok (some b)
  refused : hi = top ∨ floor ≤ hi + 1 ∧ probe (hi + 1).toNat = .ok none

/-- What the search of a range from `floor` to `top` comes to. -/
inductive Outcome (probe : Nat → Except ε (Option β)) (floor top : Int) :
    Except ε (Option β) → Prop
  | failed {e : ε} (n : Nat) : floor ≤ n → n ≤ top → probe n = .error e →
      Outcome probe floor top (.error e)
  | found {b : β} (n : Nat) : floor ≤ n → n ≤ top → probe n = .ok (some b) →
      (n = top ∨ probe (n + 1) = .ok none) → Outcome probe floor top (.ok (some b))
  | none : (top < floor ∨ probe floor.toNat = .ok none) → Outcome probe floor top (.ok none)

variable {probe : Nat → Except ε (Option β)} {floor top lo hi : Int} {best : Option β}

theorem Known.start (h : 0 ≤ floor) : Known probe floor top floor top none where
  nonneg := h
  floor_le := le_refl _
  le_top := le_refl _
  near := by omega
  taken := .inl ⟨rfl, rfl⟩
  refused := .inl rfl

/-- What is known when the range is empty is the outcome. -/
theorem Known.outcome (h : Known probe floor top lo hi best) (hempty : hi < lo) :
    Outcome probe floor top (.ok best) := by
  rcases h.taken with ⟨rfl, rfl⟩ | ⟨b, rfl, hlt, hle, htaken⟩
  · refine .none ?_
    rcases h.refused with heq | ⟨_, hrefused⟩
    · exact .inl (heq ▸ hempty)
    · rcases h.near with hnear | hnear
      · have hhi : hi + 1 = lo := by omega
        exact .inr (hhi ▸ hrefused)
      · exact .inl hnear
  · have hnonneg := h.nonneg
    have hnear : lo ≤ hi + 1 := by
      rcases h.near with hnear | hnear
      · exact hnear
      · omega
    refine .found (lo - 1).toNat (by omega) (by omega) htaken ?_
    rcases h.refused with heq | ⟨_, hrefused⟩
    · exact .inl (by omega)
    · have hnext : (hi + 1).toNat = (lo - 1).toNat + 1 := by omega
      exact .inr (hnext ▸ hrefused)

/-- **The search finds a number that is taken with one behind it that is refused**, unless all the
range was taken, or its first number was refused. -/
theorem search_outcome {fuel : Nat} (h : Known probe floor top lo hi best)
    (hfuel : hi + 1 - lo ≤ fuel) : Outcome probe floor top (search probe fuel lo hi best) := by
  induction fuel generalizing lo hi best with
  | zero => exact h.outcome (by omega)
  | succ fuel ih =>
      unfold search
      split
      · rename_i hempty
        exact h.outcome hempty
      · rename_i hsome
        have hnonneg := h.nonneg
        have hfloor := h.floor_le
        have htop := h.le_top
        have hmid : ((((lo + hi) / 2).toNat : Nat) : Int) = (lo + hi) / 2 := by omega
        split
        · rename_i e hprobe
          exact .failed _ (by omega) (by omega) hprobe
        · rename_i b hprobe
          refine ih ⟨hnonneg, by omega, htop, by omega, .inr ⟨b, rfl, by omega, by omega, ?_⟩,
            ?_⟩ (by omega)
          · rw [show (lo + hi) / 2 + 1 - 1 = (lo + hi) / 2 by omega]
            exact hprobe
          · rcases h.refused with heq | ⟨_, hrefused⟩
            · exact .inl heq
            · exact .inr ⟨by omega, hrefused⟩
        · rename_i hprobe
          refine ih ⟨hnonneg, hfloor, by omega, by omega, h.taken, .inr ⟨by omega, ?_⟩⟩ (by omega)
          rw [show (lo + hi) / 2 - 1 + 1 = (lo + hi) / 2 by omega]
          exact hprobe

end Bisect
