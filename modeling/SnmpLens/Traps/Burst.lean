import Mathlib.Algebra.BigOperators.Group.List.Basic
import Mathlib.Algebra.GroupWithZero.Nat
import Mathlib.Order.Nat
import SnmpLens.Lib.Machine

/-!
# The gate in front of what a trap can raise

`createBurstGate` of `frontend/src/utils/burst.js`. An event at the front of a window goes through
and arms a timer; the events behind it are counted, and when the timer fires they are reported at
once. The window and the timer are two clocks: a timer that fires late finds a later window open,
and closes it early. That lets one event more through, and never two, because the event after it
arms a timer that is as long as the window it opens (`burst_accounted`).

Times are what `Date.now` reads, in milliseconds. `reset` is the teardown, and not a step here.
-/

namespace SnmpLens.Traps

open Machine

/-- The state of a gate. -/
structure Gate where
  windowEnds : Nat := 0
  suppressed : Nat := 0
  /-- When the timer is due, where one is armed. -/
  timer : Option Nat := none
deriving DecidableEq, Repr

namespace Gate

/-- `flush`: what the timer does, and what it reports. -/
def flush (g : Gate) : Gate × Option Nat :=
  ({}, if 0 < g.suppressed then some g.suppressed else none)

/-- `offer`, at a time. -/
def offer (windowMs : Nat) (g : Gate) (t : Nat) : Gate × Bool :=
  if g.windowEnds ≤ t then
    ({ g with windowEnds := t + windowMs, timer := some (g.timer.getD (t + windowMs)) }, true)
  else ({ g with suppressed := g.suppressed + 1 }, false)

end Gate

/-- A gate in use. `passed` are the times of the events that were let through, the last of them
first. -/
structure Burst where
  gate : Gate := {}
  now : Nat := 0
  offers : Nat := 0
  passed : List Nat := []
  summaries : List Nat := []
deriving DecidableEq, Repr

inductive BurstStep where
  /-- An event is offered, at a time. -/
  | offer (t : Nat)
  /-- The timer fires, when it is due or later. -/
  | fire (t : Nat)
deriving DecidableEq, Repr

namespace Burst

/-- One step, no earlier than the last. -/
def step (windowMs : Nat) (b : Burst) : BurstStep → Option Burst
  | .offer t =>
      if b.now ≤ t then
        let (gate, through) := b.gate.offer windowMs t
        some { b with
          gate
          now := t
          offers := b.offers + 1
          passed := if through then t :: b.passed else b.passed }
      else none
  | .fire t =>
      match b.gate.timer with
      | none => none
      | some due =>
          if b.now ≤ t ∧ due ≤ t then
            let (gate, summary) := b.gate.flush
            some { b with gate, now := t, summaries := b.summaries ++ summary.toList }
          else none

variable {windowMs : Nat} {b b' : Burst}

/-- An event is let through. -/
def pass (windowMs : Nat) (b : Burst) (t : Nat) : Burst where
  gate :=
    { windowEnds := t + windowMs
      suppressed := b.gate.suppressed
      timer := some (b.gate.timer.getD (t + windowMs)) }
  now := t
  offers := b.offers + 1
  passed := t :: b.passed
  summaries := b.summaries

/-- An event is suppressed. -/
def hold (b : Burst) (t : Nat) : Burst :=
  { b with
    gate := { b.gate with suppressed := b.gate.suppressed + 1 }
    now := t
    offers := b.offers + 1 }

/-- The window is over. -/
def close (b : Burst) (t : Nat) : Burst :=
  { b with gate := {}, now := t, summaries := b.summaries ++ b.gate.flush.2.toList }

theorem step_cases {a : BurstStep} (h : step windowMs b a = some b') :
    (∃ t, a = .offer t ∧ b.now ≤ t ∧ b.gate.windowEnds ≤ t ∧ b' = b.pass windowMs t) ∨
    (∃ t, a = .offer t ∧ b.now ≤ t ∧ t < b.gate.windowEnds ∧ b' = b.hold t) ∨
    (∃ t due, a = .fire t ∧ b.gate.timer = some due ∧ b.now ≤ t ∧ due ≤ t ∧ b' = b.close t) := by
  cases a with
  | offer t =>
      simp only [step] at h
      split at h
      · rename_i hnow
        unfold Gate.offer at h
        by_cases hopen : b.gate.windowEnds ≤ t
        · rw [if_pos hopen] at h
          exact .inl ⟨t, rfl, hnow, hopen, (Option.some.inj h).symm⟩
        · rw [if_neg hopen] at h
          exact .inr (.inl ⟨t, rfl, hnow, by omega, (Option.some.inj h).symm⟩)
      · cases h
  | fire t =>
      cases htimer : b.gate.timer with
      | none =>
          simp only [step, htimer] at h
          cases h
      | some due =>
          simp only [step, htimer] at h
          split at h
          · rename_i hlate
            exact .inr (.inr ⟨t, due, rfl, rfl, hlate.1, hlate.2, (Option.some.inj h).symm⟩)
          · cases h

/-! ## The invariant -/

/-- Any three of the events let through span a window. -/
def Spread (windowMs : Nat) (passed : List Nat) : Prop :=
  ∀ x y z, List.Sublist [x, y, z] passed → z + windowMs ≤ x

/-- A third event would span a window with the last two: it comes after the window the last of
them opened, or after a timer as long that was armed no earlier than the one before. -/
def Paced (windowMs : Nat) (b : Burst) : Prop :=
  ∀ x y rest, b.passed = x :: y :: rest →
    y + windowMs ≤ x ∨ y + windowMs ≤ b.gate.timer.getD b.now

structure Accounted (windowMs : Nat) (b : Burst) : Prop where
  counted : b.passed.length + b.summaries.sum + b.gate.suppressed = b.offers
  idle : b.gate.timer = none → b.gate.windowEnds = 0 ∧ b.gate.suppressed = 0
  due : ∀ due, b.gate.timer = some due → due ≤ b.now + windowMs
  opened : ∀ due, b.gate.timer = some due →
    ∃ x rest, b.passed = x :: rest ∧ b.gate.windowEnds = x + windowMs
  past : ∀ x ∈ b.passed, x ≤ b.now
  latest : b.passed.Pairwise (· ≥ ·)
  paced : b.Paced windowMs
  spread : Spread windowMs b.passed

theorem accounted_start (windowMs : Nat) : Accounted windowMs {} where
  counted := rfl
  idle _ := ⟨rfl, rfl⟩
  due _ h := by cases h
  opened _ h := by cases h
  past _ h := by cases h
  latest := .nil
  paced _ _ _ h := by cases h
  spread x y z h := by cases h

/-- An event let through comes late enough for the two before it. -/
theorem Accounted.late (h : Accounted windowMs b) {t : Nat} (hnow : b.now ≤ t)
    (hopen : b.gate.windowEnds ≤ t) {x y : Nat} {rest : List Nat} (hpassed : b.passed = x :: y :: rest) :
    y + windowMs ≤ t := by
  have hx : x ≤ b.now := h.past x (by rw [hpassed]; exact List.mem_cons_self)
  have hyx : y ≤ x := by
    have hlatest := h.latest
    rw [hpassed] at hlatest
    exact (List.pairwise_cons.mp hlatest).1 y List.mem_cons_self
  cases htimer : b.gate.timer with
  | none =>
      rcases h.paced x y rest hpassed with hspan | hspan
      · omega
      · rw [htimer] at hspan
        exact hspan.trans hnow
  | some due =>
      obtain ⟨x', rest', hpassed', hends⟩ := h.opened due htimer
      rw [hpassed] at hpassed'
      obtain rfl : x = x' := (List.cons.inj hpassed').1
      omega

/-- **An event let through keeps the account.** -/
theorem Accounted.passes (h : Accounted windowMs b) {t : Nat} (hnow : b.now ≤ t)
    (hopen : b.gate.windowEnds ≤ t) :
    Accounted windowMs (b.pass windowMs t) where
  counted := by
    have hcount := h.counted
    simp only [pass, List.length_cons]
    omega
  idle htimer := by cases htimer
  due due htimer := by
    cases htimer
    cases htimer : b.gate.timer with
    | none => exact le_refl _
    | some due =>
        have hdue := h.due due htimer
        simp only [pass, Option.getD_some]
        omega
  opened _ _ := ⟨t, b.passed, rfl, rfl⟩
  past x hx := by
    rcases List.mem_cons.mp hx with rfl | hx
    · exact le_refl _
    · exact (h.past x hx).trans hnow
  latest := List.pairwise_cons.mpr ⟨fun x hx => (h.past x hx).trans hnow, h.latest⟩
  paced x y rest hpassed := by
    obtain ⟨rfl, hbefore⟩ : t = x ∧ b.passed = y :: rest := List.cons.inj hpassed
    cases htimer : b.gate.timer with
    | none =>
        -- the timer is armed with this event
        have hy := h.past y (by rw [hbefore]; exact List.mem_cons_self)
        refine .inr ?_
        simp only [pass, htimer, Option.getD_none, Option.getD_some]
        omega
    | some due =>
        -- the window was opened by the event before
        obtain ⟨y', rest', hpassed', hends⟩ := h.opened due htimer
        rw [hbefore] at hpassed'
        obtain rfl : y = y' := (List.cons.inj hpassed').1
        exact .inl (by omega)
  spread x y z hsub := by
    cases hsub with
    | cons _ hsub => exact h.spread x y z hsub
    | cons_cons _ hsub =>
        cases hpassed : b.passed with
        | nil =>
            rw [hpassed] at hsub
            cases hsub
        | cons p ps =>
            rw [hpassed] at hsub
            have hz : z ∈ ps := by
              cases hsub with
              | cons _ hsub => exact hsub.subset (by simp)
              | cons_cons _ hsub => exact hsub.subset (by simp)
            cases ps with
            | nil => cases hz
            | cons q qs =>
                have hlatest := h.latest
                rw [hpassed] at hlatest
                have hq := h.late hnow hopen hpassed
                rcases List.mem_cons.mp hz with rfl | hz
                · exact hq
                · have hzq := (List.pairwise_cons.mp (List.pairwise_cons.mp hlatest).2).1 z hz
                  omega

theorem Accounted.step {a : BurstStep} (h : Accounted windowMs b)
    (hstep : b.step windowMs a = some b') : Accounted windowMs b' := by
  obtain ⟨t, rfl, hnow, hopen, rfl⟩ | ⟨t, rfl, hnow, hshut, rfl⟩ | ⟨t, due, rfl, htimer, hnow, hlate, rfl⟩ :=
    step_cases hstep
  · exact h.passes hnow hopen
  · -- an event is suppressed in a window only, and then the timer is armed
    have harmed : b.gate.timer ≠ none := by
      intro htimer
      have hidle := (h.idle htimer).1
      omega
    refine ⟨?_, fun htimer => absurd htimer harmed, ?_, h.opened, ?_, h.latest, ?_, h.spread⟩
    · have hcount := h.counted
      simp only [hold]
      omega
    · intro due htimer
      have hdue := h.due due htimer
      simp only [hold]
      omega
    · intro x hx
      exact (h.past x hx).trans hnow
    · intro x y rest hpassed
      rcases h.paced x y rest hpassed with hspan | hspan
      · exact .inl hspan
      · obtain ⟨due, htimer⟩ := Option.ne_none_iff_exists'.mp harmed
        rw [htimer] at hspan
        refine .inr ?_
        simp only [hold, htimer]
        exact hspan
  · refine ⟨?_, fun _ => ⟨rfl, rfl⟩, ?_, ?_, ?_, h.latest, ?_, h.spread⟩
    · have hcount := h.counted
      have hsummary : b.gate.flush.2.toList.sum = b.gate.suppressed := by
        unfold Gate.flush
        dsimp only
        split
        · exact List.sum_singleton
        · simp only [Option.toList_none, List.sum_nil]
          omega
      simp only [close, List.sum_append, hsummary]
      omega
    · intro due htimer
      cases htimer
    · intro due htimer
      cases htimer
    · intro x hx
      exact (h.past x hx).trans hnow
    · intro x y rest hpassed
      rcases h.paced x y rest hpassed with hspan | hspan
      · exact .inl hspan
      · rw [htimer] at hspan
        exact .inr (hspan.trans hlate)

/-- Three events do not fit in less than a window. -/
theorem Accounted.rate (h : Accounted windowMs b) {s e : Nat} (hspan : e < s + windowMs) :
    (b.passed.filter fun t => s ≤ t ∧ t ≤ e).length ≤ 2 := by
  by_contra hmany
  match hevents : b.passed.filter fun t => s ≤ t ∧ t ≤ e with
  | [] | [_] | [_, _] =>
      rw [hevents] at hmany
      exact hmany (by simp)
  | x :: y :: z :: rest =>
      have hsub : List.Sublist [x, y, z] (b.passed.filter fun t => s ≤ t ∧ t ≤ e) := by
        rw [hevents]
        exact (List.nil_sublist rest).cons_cons z |>.cons_cons y |>.cons_cons x
      have hwindow := h.spread x y z (hsub.trans List.filter_sublist)
      have hx := (List.mem_filter.mp (hsub.subset (show x ∈ [x, y, z] by simp))).2
      have hz := (List.mem_filter.mp (hsub.subset (show z ∈ [x, y, z] by simp))).2
      simp only [decide_eq_true_eq] at hx hz
      omega

/--
**The gate accounts for every event.**

Whatever is offered, and however late the timer fires: what was let through, what was reported
and what is pending are all the events there were; where some are pending a timer is armed, due
within the window, that reports them when it fires; and less than a window has no more than two
events let through.
-/
theorem burst_accounted {as : List BurstStep}
    (hrun : Run (step windowMs) (fun _ _ => True) {} as b) :
    b.passed.length + b.summaries.sum + b.gate.suppressed = b.offers ∧
      (0 < b.gate.suppressed → ∃ due, b.gate.timer = some due ∧ due ≤ b.now + windowMs ∧
        ∀ t, b.now ≤ t → due ≤ t → ∃ b', b.step windowMs (.fire t) = some b' ∧
          b'.summaries = b.summaries ++ [b.gate.suppressed]) ∧
      ∀ s e, e < s + windowMs → (b.passed.filter fun t => s ≤ t ∧ t ≤ e).length ≤ 2 := by
  have h : Accounted windowMs b :=
    hrun.invariant (accounted_start windowMs) fun _ _ _ hb _ hstep => hb.step hstep
  refine ⟨h.counted, fun hpending => ?_, fun s e hspan => h.rate hspan⟩
  cases htimer : b.gate.timer with
  | none =>
      have hidle := (h.idle htimer).2
      omega
  | some due =>
      refine ⟨due, rfl, h.due due htimer, fun t hnow hlate => ?_⟩
      unfold Burst.step Gate.flush
      rw [htimer]
      dsimp only
      rw [if_pos ⟨hnow, hlate⟩, if_pos hpending]
      exact ⟨_, rfl, rfl⟩

/-- A timer that fires late: the event at 1000 opens a second window, which the timer closes. -/
def lateTimer : List BurstStep :=
  [.offer 0, .offer 1, .offer 1000, .fire 1001, .offer 1001, .offer 1500]

theorem burst_accounted_late : ∃ b : Burst, exec (step 1000) {} lateTimer = some b ∧
    b.passed = [1001, 1000, 0] ∧ b.summaries = [1] ∧
    b.passed.length + b.summaries.sum + b.gate.suppressed = b.offers ∧
      (0 < b.gate.suppressed → ∃ due, b.gate.timer = some due ∧ due ≤ b.now + 1000 ∧
        ∀ t, b.now ≤ t → due ≤ t → ∃ b', b.step 1000 (.fire t) = some b' ∧
          b'.summaries = b.summaries ++ [b.gate.suppressed]) ∧
      ∀ s e, e < s + 1000 → (b.passed.filter fun t => s ≤ t ∧ t ≤ e).length ≤ 2 :=
  ⟨_, rfl, rfl, rfl,
    burst_accounted (run_of_exec (show exec (step 1000) {} lateTimer = some _ from rfl))⟩

end Burst

end SnmpLens.Traps
