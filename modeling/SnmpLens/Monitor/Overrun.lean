import Mathlib.Algebra.Group.Int.Defs
import Mathlib.Data.List.Induction
import SnmpLens.Lib.Mealy

/-!
# The overrun guard

What a session does when a poll round takes longer than its interval: three slow rounds
engage the guard, which widens the period to twice the round, and never past eight
intervals; three rounds that fit in half the interval release it. The operator may accept
the slowdown, and then the period is the interval again.
-/

namespace SnmpLens.Monitor

/-- `time.Duration`: nanoseconds. -/
abbrev Duration := Int64

/-- `time.Millisecond`. -/
def millisecond : Duration := 1000000

def overrunStreak : Nat := 3

def recoverStreak : Nat := 3

def recoverDivisor : Duration := 2

def backoffHeadroom : Duration := 2

def maxBackoffFactor : Duration := 8

/-- The edge that is reported; the session and its name, and the numbers of its OIDs and targets,
are put in by the loop. -/
structure Overrun where
  intervalMs : Int64
  cycleMs : Int64
  effectiveMs : Int64
  accepted : Bool
  recovered : Bool
  deriving DecidableEq, Repr

/-- One poll round, measured. -/
structure CycleStat where
  dur : Duration
  readings : Nat
  failed : Nat
  deriving DecidableEq, Repr

/-- Whether this round says anything about load. -/
def CycleStat.evidence (c : CycleStat) : Bool := 0 < c.readings && c.failed * 2 < c.readings

/-- The state of one session's guardrail; `overs` and `unders` are its streaks, `over` and `under`. -/
structure OverrunGuard where
  interval : Duration
  accepted : Bool
  overs : Nat
  unders : Nat
  engaged : Bool
  cycle : Duration
  effective : Duration
  deriving DecidableEq, Repr

def newOverrunGuard (interval : Duration) (accepted : Bool) : OverrunGuard where
  interval
  accepted
  overs := 0
  unders := 0
  engaged := false
  cycle := 0
  effective := interval

namespace OverrunGuard

/-- `backoff`; the products are those of 64-bit integers. -/
def backoff (g : OverrunGuard) (cycle : Duration) : Duration :=
  if g.accepted then g.interval
  else
    let d := cycle * backoffHeadroom
    let capped := g.interval * maxBackoffFactor
    let d := if capped < d then capped else d
    if d < g.interval then g.interval else d

def edge (g : OverrunGuard) (recovered : Bool) : Overrun where
  intervalMs := g.interval / millisecond
  cycleMs := g.cycle / millisecond
  effectiveMs := g.effective / millisecond
  accepted := g.accepted
  recovered

/-- Feeds one round in, and returns the edge to report. -/
def observe (g : OverrunGuard) (c : CycleStat) : OverrunGuard × Option Overrun :=
  if !c.evidence then (g, none)
  else if g.interval < c.dur then
    let g := { g with unders := 0, overs := g.overs + 1 }
    if !g.engaged && overrunStreak ≤ g.overs then
      let g := { g with engaged := true, cycle := c.dur, effective := g.backoff c.dur }
      (g, some (g.edge false))
    else if g.engaged && g.cycle < c.dur then
      ({ g with cycle := c.dur, effective := g.backoff c.dur }, none)
    else (g, none)
  else
    let g := { g with overs := 0 }
    if g.interval < c.dur * recoverDivisor then (g, none)
    else
      let g := { g with unders := g.unders + 1 }
      if g.engaged && recoverStreak ≤ g.unders then
        let g := { g with engaged := false, cycle := c.dur, effective := g.interval }
        (g, some (g.edge true))
      else (g, none)

/-- The operator keeps the cadence that was chosen. -/
def accept (g : OverrunGuard) : OverrunGuard := { g with accepted := true, effective := g.interval }

end OverrunGuard

/-- What happens to a guard. -/
inductive GuardStep where
  | observe (c : CycleStat)
  | accept
  deriving DecidableEq, Repr

def GuardStep.counts : GuardStep → Bool
  | .observe c => c.evidence
  | .accept => true

def OverrunGuard.step (g : OverrunGuard) : GuardStep → OverrunGuard × Option Overrun
  | .observe c => g.observe c
  | .accept => (g.accept, none)

/-! ## What a round can do -/

/-- Every outcome of a round: it is no evidence, it is only counted, the guard is engaged, the period
is widened further, or the guard is released. -/
inductive Observed (g : OverrunGuard) (c : CycleStat) : OverrunGuard × Option Overrun → Prop
  | idle : c.evidence = false → Observed g c (g, none)
  | counted (overs unders : Nat) : c.evidence = true → Observed g c ({ g with overs, unders }, none)
  | departed (g' : OverrunGuard) : c.evidence = true → g.engaged = false →
      g' = { g with unders := 0, overs := g.overs + 1, engaged := true, cycle := c.dur,
                    effective := g.backoff c.dur } →
      Observed g c (g', some (g'.edge false))
  | widened : c.evidence = true → g.engaged = true →
      Observed g c ({ g with unders := 0, overs := g.overs + 1, cycle := c.dur,
                             effective := g.backoff c.dur }, none)
  | recovered (g' : OverrunGuard) : c.evidence = true → g.engaged = true →
      g' = { g with overs := 0, unders := g.unders + 1, engaged := false, cycle := c.dur,
                    effective := g.interval } →
      Observed g c (g', some (g'.edge true))

namespace OverrunGuard

theorem observed (g : OverrunGuard) (c : CycleStat) : Observed g c (g.observe c) := by
  unfold observe
  cases he : c.evidence with
  | false => exact .idle he
  | true =>
      simp only [Bool.not_true, Bool.false_eq_true, if_false]
      split
      · split
        · rename_i hengage
          exact .departed _ he (by simpa using (Bool.and_eq_true_iff.mp hengage).1) rfl
        · split
          · rename_i hworse
            exact .widened he (Bool.and_eq_true_iff.mp hworse).1
          · exact .counted _ _ he
      · split
        · exact .counted _ _ he
        · split
          · rename_i hrelease
            exact .recovered _ he (Bool.and_eq_true_iff.mp hrelease).1 rfl
          · exact .counted _ _ he

/-! ## The period -/

variable {interval : Duration}

/-- A product that does not fit is smaller than what was meant. -/
theorem toInt_times_eight_le (h : 0 < interval) :
    (interval * maxBackoffFactor).toInt ≤ 8 * interval.toInt := by
  have hpos : 0 < interval.toInt := Int64.lt_iff_toInt_lt.mp h
  have height : maxBackoffFactor.toInt = 8 := rfl
  rw [Int64.toInt_mul, height, Int.mul_comm]
  have hsize : ((2 ^ 64 : Nat) : Int) = 18446744073709551616 := rfl
  rw [Int.bmod_def, hsize]
  split <;> omega

variable {g : OverrunGuard}

theorem backoff_bounds (h : 0 < g.interval) (cycle : Duration) :
    g.interval.toInt ≤ (g.backoff cycle).toInt ∧
      (g.backoff cycle).toInt ≤ 8 * g.interval.toInt := by
  have hpos : 0 < g.interval.toInt := Int64.lt_iff_toInt_lt.mp h
  have hcap := toInt_times_eight_le h
  unfold backoff
  split
  · omega
  · dsimp only
    generalize cycle * backoffHeadroom = d
    generalize g.interval * maxBackoffFactor = capped at hcap
    have hleast : (if capped < d then capped else d).toInt ≤ capped.toInt := by
      split
      · exact Int.le_refl _
      · rename_i hle
        rw [Int64.lt_iff_toInt_lt] at hle
        omega
    generalize (if capped < d then capped else d) = least at hleast
    split
    · omega
    · rename_i hle
      rw [Int64.lt_iff_toInt_lt] at hle
      omega

/-- What the four fields have to do with each other. -/
structure Sound (interval : Duration) (g : OverrunGuard) : Prop where
  interval_eq : g.interval = interval
  lower : interval.toInt ≤ g.effective.toInt
  upper : g.effective.toInt ≤ 8 * interval.toInt
  settled : g.accepted = true ∨ g.engaged = false → g.effective = interval

theorem sound_new (h : 0 < interval) (accepted : Bool) :
    Sound interval (newOverrunGuard interval accepted) := by
  have hpos : 0 < interval.toInt := Int64.lt_iff_toInt_lt.mp h
  exact ⟨rfl, Int.le_refl _, (by show interval.toInt ≤ _; omega), fun _ => rfl⟩

theorem Sound.atInterval (h : 0 < interval) (hinterval : g.interval = interval)
    (heffective : g.effective = interval) : Sound interval g := by
  have hpos : 0 < interval.toInt := Int64.lt_iff_toInt_lt.mp h
  have heq : g.effective.toInt = interval.toInt := congrArg Int64.toInt heffective
  exact ⟨hinterval, Int.le_of_eq heq.symm, by omega, fun _ => heffective⟩

/-- A guard that is engaged, and widened. -/
theorem Sound.widen (h : 0 < interval) {g g' : OverrunGuard} {cycle : Duration}
    (hs : Sound interval g) (hinterval : g'.interval = g.interval)
    (haccepted : g'.accepted = g.accepted) (hengaged : g'.engaged = true)
    (heffective : g'.effective = g.backoff cycle) :
    Sound interval g' := by
  obtain ⟨hlower, hupper⟩ := @backoff_bounds g (hs.interval_eq ▸ h) cycle
  rw [← heffective, hs.interval_eq] at hlower hupper
  refine ⟨hinterval.trans hs.interval_eq, hlower, hupper, ?_⟩
  rintro (hacc | hfree)
  · -- an operator who accepted is not backed off
    rw [heffective, backoff, if_pos (haccepted ▸ hacc), hs.interval_eq]
  · rw [hengaged] at hfree
    cases hfree

theorem sound_step (h : 0 < interval) (hs : Sound interval g) (i : GuardStep) :
    Sound interval (g.step i).1 := by
  cases i with
  | accept => exact .atInterval h hs.interval_eq hs.interval_eq
  | observe c =>
      cases hobs : g.step (.observe c) with
      | mk g' report =>
          have hcase : Observed g c (g', report) := hobs ▸ observed g c
          cases hcase with
          | idle => exact hs
          | counted => exact ⟨hs.interval_eq, hs.lower, hs.upper, hs.settled⟩
          | departed _ _ _ hg' =>
              subst hg'
              exact hs.widen h rfl rfl rfl rfl
          | widened _ hengaged => exact hs.widen h rfl rfl hengaged rfl
          | recovered _ _ _ hg' =>
              exact .atInterval h (hg' ▸ hs.interval_eq) (hg' ▸ hs.interval_eq)

/-! ## The reports -/

/-- A departure is reported by a guard that is not engaged, a recovery by one that is. -/
theorem toggles : Mealy.Toggles OverrunGuard.step engaged Overrun.recovered := by
  constructor
  · intro g i hquiet
    cases i with
    | accept => rfl
    | observe c =>
        cases hobs : g.step (.observe c) with
        | mk g' report =>
            have hcase : Observed g c (g', report) := hobs ▸ observed g c
            rw [hobs] at hquiet
            cases hcase with
            | idle => rfl
            | counted => rfl
            | widened => rfl
            | departed => cases hquiet
            | recovered => cases hquiet
  · intro g i o ho
    cases i with
    | accept => cases ho
    | observe c =>
        cases hobs : g.step (.observe c) with
        | mk g' report =>
            have hcase : Observed g c (g', report) := hobs ▸ observed g c
            rw [hobs] at ho
            cases hcase with
            | idle => cases ho
            | counted => cases ho
            | widened => cases ho
            | departed _ _ hengaged hg' =>
                obtain rfl := Option.some.inj ho
                rw [hengaged, hg']
                exact ⟨rfl, rfl⟩
            | recovered _ _ hengaged hg' =>
                obtain rfl := Option.some.inj ho
                rw [hengaged, hg']
                exact ⟨rfl, rfl⟩

theorem accepted_step (g : OverrunGuard) (i : GuardStep) :
    (g.step i).1.accepted = (g.accepted || i == .accept) := by
  cases i with
  | accept => exact (Bool.or_true _).symm
  | observe c =>
      have hkept : (g.observe c).1.accepted = g.accepted := by
        cases hobs : g.observe c with
        | mk g' report =>
            have hcase : Observed g c (g', report) := hobs ▸ observed g c
            cases hcase with
            | departed _ _ _ hg' => rw [hg']
            | recovered _ _ _ hg' => rw [hg']
            | _ => rfl
      exact hkept.trans (Bool.or_false _).symm

theorem accepted_run (g : OverrunGuard) (steps : List GuardStep) :
    (Mealy.run OverrunGuard.step g steps).1.accepted = (g.accepted || steps.contains .accept) := by
  induction steps generalizing g with
  | nil => exact (Bool.or_false _).symm
  | cons i steps ih =>
      have hsymm : (i == GuardStep.accept) = (GuardStep.accept == i) := BEq.comm
      rw [Mealy.run, ih, accepted_step, List.contains_cons, hsymm, Bool.or_assoc]

variable {c : CycleStat}

theorem not_evidence (h : c.readings = 0 ∨ c.readings ≤ 2 * c.failed) :
    c.evidence = false := by
  unfold CycleStat.evidence
  rw [Bool.and_eq_false_iff, decide_eq_false_iff_not, decide_eq_false_iff_not]
  omega

theorem observe_idle (g : OverrunGuard) (h : c.evidence = false) :
    g.observe c = (g, none) := by
  unfold observe
  rw [h]
  rfl

/--
**The guard keeps its bounds, and reports a departure and a recovery in turn**, whatever the
rounds cost and whenever the operator accepts.

A round that is no evidence changes nothing: it is as if it had not been.
-/
theorem guard_sound {interval : Duration} (hpos : 0 < interval) (accepted : Bool)
    (steps : List GuardStep) :
    let out := Mealy.run OverrunGuard.step (newOverrunGuard interval accepted) steps
    (interval.toInt ≤ out.1.effective.toInt ∧ out.1.effective.toInt ≤ 8 * interval.toInt) ∧
    (accepted = true ∨ .accept ∈ steps ∨ out.1.engaged = false → out.1.effective = interval) ∧
    ((∀ k o, out.2[k]? = some o → o.recovered = decide (k % 2 = 1)) ∧
      out.1.engaged = decide (out.2.length % 2 = 1)) ∧
    (∀ c : CycleStat, c.readings = 0 ∨ c.readings ≤ 2 * c.failed → out.1.observe c = (out.1, none)) ∧
    Mealy.run OverrunGuard.step (newOverrunGuard interval accepted) (steps.filter GuardStep.counts)
      = out := by
  intro out
  have hs : Sound interval out.1 :=
    Mealy.invariant (fun g i hg => sound_step hpos hg i) (sound_new hpos accepted)
  have hidle : ∀ g i, GuardStep.counts i = false → OverrunGuard.step g i = (g, none) := by
    intro g i hi
    cases i with
    | accept => cases hi
    | observe c => exact observe_idle g hi
  obtain ⟨hsigns, hphase⟩ := @Mealy.Toggles.alternate _ _ _ _ (newOverrunGuard interval accepted) steps
    _ _ toggles
  refine ⟨⟨hs.lower, hs.upper⟩, ?_, ⟨fun k o ho => ?_, ?_⟩, ?_, Mealy.run_filter hidle⟩
  · intro h
    have hacc := accepted_run (newOverrunGuard interval accepted) steps
    refine hs.settled ?_
    rcases h with h | h | h
    · exact .inl (hacc.trans (by rw [show (newOverrunGuard interval accepted).accepted = true from h]; rfl))
    · exact .inl (hacc.trans (by rw [List.contains_iff_mem.mpr h, Bool.or_true]))
    · exact .inr h
  · exact (hsigns k o ho).trans (Bool.false_xor _)
  · exact hphase.trans (Bool.false_xor _)
  · exact fun c hc => observe_idle _ (not_evidence hc)

/-- Three rounds of three seconds against one of a second, and three that fit. -/
theorem guard_sound_slow :
    let slow : CycleStat := ⟨3000000000, 4, 1⟩
    let out := Mealy.run OverrunGuard.step (newOverrunGuard 1000000000 false)
      (List.replicate 3 (.observe slow))
    out.1.effective = 6000000000 ∧ out.2 = [⟨1000, 3000, 6000, false, false⟩] ∧
      out.1.effective.toInt ≤ 8 * (1000000000 : Duration).toInt := by
  refine ⟨by decide, by decide, ?_⟩
  exact (guard_sound (by decide) false _).1.2

/-! ## What a recovery stands on

The rounds between the interval and its half are neither over nor under, and the count of the ones
that fit the half is left standing by them. So the count is a streak only in a run where such a
round comes when there is no count.
-/

/-- Whether a round fits in half the interval, whatever 64 bits hold. -/
def FitsHalf (interval : Duration) (c : CycleStat) : Prop := 2 * c.dur.toInt ≤ interval.toInt

instance (interval : Duration) (c : CycleStat) : Decidable (FitsHalf interval c) :=
  inferInstanceAs (Decidable (2 * c.dur.toInt ≤ interval.toInt))

/-- The rounds that say something about load, in order. -/
def evidenceOf : List GuardStep → List CycleStat
  | [] => []
  | .observe c :: steps => if c.evidence then c :: evidenceOf steps else evidenceOf steps
  | .accept :: steps => evidenceOf steps

/-- The last `n` of some rounds fit in half the interval. -/
def Streak (interval : Duration) (n : Nat) (rounds : List CycleStat) : Prop :=
  ∃ earlier last, rounds = earlier ++ last ∧ last.length = n ∧ ∀ c ∈ last, FitsHalf interval c

/-- A round between the interval and its half finds no count standing, and its double is a number of
64 bits. -/
def Restarts (g : OverrunGuard) : GuardStep → Prop
  | .observe c => c.evidence = true → ¬ g.interval < c.dur → ¬ FitsHalf g.interval c →
      g.unders = 0 ∧ 2 * c.dur.toInt < 2 ^ 63
  | .accept => True

theorem evidenceOf_append (front back : List GuardStep) :
    evidenceOf (front ++ back) = evidenceOf front ++ evidenceOf back := by
  induction front with
  | nil => rfl
  | cons i front ih =>
      cases i with
      | accept => exact ih
      | observe c =>
          rw [List.cons_append, evidenceOf, evidenceOf, ih]
          cases c.evidence <;> rfl

theorem Streak.zero (interval : Duration) (rounds : List CycleStat) : Streak interval 0 rounds :=
  ⟨rounds, [], (List.append_nil _).symm, rfl, fun _ hc => absurd hc List.not_mem_nil⟩

variable {rounds : List CycleStat}

theorem Streak.succ {n : Nat} (h : Streak interval n rounds) (hc : FitsHalf interval c) :
    Streak interval (n + 1) (rounds ++ [c]) := by
  obtain ⟨earlier, last, rfl, hlen, hfit⟩ := h
  refine ⟨earlier, last ++ [c], List.append_assoc .., by rw [List.length_append, hlen]; rfl, ?_⟩
  intro r hr
  rcases List.mem_append.mp hr with hr | hr
  · exact hfit r hr
  · rw [List.mem_singleton.mp hr]
    exact hc

theorem Streak.of_le {m n : Nat} (h : Streak interval n rounds) (hle : m ≤ n) :
    Streak interval m rounds := by
  obtain ⟨earlier, last, rfl, hlen, hfit⟩ := h
  refine ⟨earlier ++ last.take (n - m), last.drop (n - m), ?_, ?_,
    fun c hc => hfit c (List.mem_of_mem_drop hc)⟩
  · rw [List.append_assoc, List.take_append_drop]
  · rw [List.length_drop, hlen]
    omega

/-- The comparison with the double is the one that is meant, where the double fits. -/
theorem not_lt_double (hfits : ¬ g.interval < c.dur) (hdouble : 2 * c.dur.toInt < 2 ^ 63)
    (h : ¬ g.interval < c.dur * recoverDivisor) :
    FitsHalf g.interval c := by
  have htwo : recoverDivisor.toInt = 2 := rfl
  have hsize : ((2 ^ 64 : Nat) : Int) = 18446744073709551616 := rfl
  rw [Int64.lt_iff_toInt_lt] at hfits h
  rw [Int64.toInt_mul, htwo, Int.bmod_def, hsize] at h
  have hlow := Int64.minValue_le_toInt c.dur
  unfold FitsHalf
  have hmin : Int64.minValue.toInt = -9223372036854775808 := rfl
  split at h <;> omega

/-- **The count is a streak**, and a recovery ends one. -/
theorem streak_step {i : GuardStep} (hs : Streak g.interval g.unders rounds)
    (hrestart : Restarts g i) :
    Streak g.interval (g.step i).1.unders (rounds ++ evidenceOf [i]) ∧
      ∀ o, (g.step i).2 = some o → o.recovered = true →
        Streak g.interval recoverStreak (rounds ++ evidenceOf [i]) := by
  cases i with
  | accept =>
      rw [show evidenceOf [.accept] = [] from rfl, List.append_nil]
      exact ⟨hs, fun o ho => absurd ho (by simp [step])⟩
  | observe c =>
      show Streak _ (g.observe c).1.unders _ ∧ ∀ o, (g.observe c).2 = some o → _
      unfold observe
      cases he : c.evidence with
      | false =>
          have hnone : evidenceOf [.observe c] = [] := by simp [evidenceOf, he]
          rw [hnone, List.append_nil]
          exact ⟨hs, fun o ho => absurd ho (by simp)⟩
      | true =>
          have hone : evidenceOf [.observe c] = [c] := by simp [evidenceOf, he]
          rw [hone]
          simp only [Bool.not_true, Bool.false_eq_true, if_false]
          split
          · split
            · refine ⟨.zero _ _, fun o ho hrec => ?_⟩
              obtain rfl := Option.some.inj ho
              cases hrec
            · split
              · exact ⟨.zero _ _, fun o ho => absurd ho (by simp)⟩
              · exact ⟨.zero _ _, fun o ho => absurd ho (by simp)⟩
          · rename_i hover
            have hkept := hrestart he hover
            split
            · -- Between the interval and its half there is no count, or the round does fit the half.
              refine ⟨?_, fun o ho => absurd ho (by simp)⟩
              by_cases hfit : FitsHalf g.interval c
              · exact (hs.succ hfit).of_le (Nat.le_succ _)
              · show Streak _ g.unders _
                rw [(hkept hfit).1]
                exact .zero _ _
            · rename_i hhalf
              have hfit : FitsHalf g.interval c := by
                by_cases hfit : FitsHalf g.interval c
                · exact hfit
                · exact not_lt_double hover (hkept hfit).2 hhalf
              have hmore := hs.succ hfit
              split
              · rename_i hrelease
                refine ⟨hmore, fun o _ _ => hmore.of_le ?_⟩
                exact of_decide_eq_true (Bool.and_eq_true_iff.mp hrelease).2
              · exact ⟨hmore, fun o ho => absurd ho (by simp)⟩

theorem interval_step (g : OverrunGuard) (i : GuardStep) : (g.step i).1.interval = g.interval := by
  cases i with
  | accept => rfl
  | observe c =>
      show (g.observe c).1.interval = g.interval
      cases hobs : g.observe c with
      | mk g' report =>
          have hcase : Observed g c (g', report) := hobs ▸ observed g c
          cases hcase with
          | departed _ _ _ hg' => rw [hg']
          | recovered _ _ _ hg' => rw [hg']
          | _ => rfl

theorem interval_run (g : OverrunGuard) (steps : List GuardStep) :
    (Mealy.run step g steps).1.interval = g.interval := by
  induction steps generalizing g with
  | nil => rfl
  | cons i steps ih => exact (ih (g.step i).1).trans (interval_step g i)

/-- The count is a streak behind every run whose steps restart it. -/
theorem streak_run {accepted : Bool} {steps : List GuardStep}
    (h : ∀ front i behind, steps = front ++ i :: behind → Restarts (Mealy.run step (newOverrunGuard interval accepted) front).1 i)
    :
    Streak interval (Mealy.run step (newOverrunGuard interval accepted) steps).1.unders
      (evidenceOf steps) := by
  induction steps using List.reverseRecOn with
  | nil => exact .zero _ _
  | append_singleton steps i ih =>
      have hs := ih fun front j behind hsplit => by
        refine h front j (behind ++ [i]) ?_
        rw [hsplit, List.append_assoc, List.cons_append]
      have hinterval := interval_run (newOverrunGuard interval accepted) steps
      have hstep := (streak_step (i := i) (by rw [hinterval]; exact hs) (h steps i [] rfl)).1
      rw [hinterval] at hstep
      rw [Mealy.run_append, evidenceOf_append]
      exact hstep

/-- **A recovery ends a streak.** In a run where every round between the interval and its half comes
when no count stands, a recovery is reported only by a round that is the last of three rounds of
evidence in a row, each of which fits in half the interval. -/
theorem recovery_needs_streak (interval : Duration) (accepted : Bool) (steps : List GuardStep)
    (h : ∀ front i behind, steps = front ++ i :: behind →
      Restarts (Mealy.run step (newOverrunGuard interval accepted) front).1 i) :
    ∀ front i behind o, steps = front ++ i :: behind →
      ((Mealy.run step (newOverrunGuard interval accepted) front).1.step i).2 = some o →
        o.recovered = true → Streak interval recoverStreak (evidenceOf (front ++ [i])) := by
  intro front i behind o hsplit ho hrec
  have hs : Streak interval _ (evidenceOf front) := streak_run fun front' j behind' hfront =>
    h front' j (behind' ++ i :: behind) (by rw [hsplit, hfront, List.append_assoc, List.cons_append])
  have hinterval := interval_run (newOverrunGuard interval accepted) front
  have hrestart := h front i behind hsplit
  have hstep := (streak_step (by rw [hinterval]; exact hs) hrestart).2 o ho hrec
  rw [hinterval] at hstep
  rw [evidenceOf_append]
  exact hstep

/-- Twelve seconds, three times, against ten, and then four seconds, three times. -/
theorem recovery_behind_streak :
    let slow : GuardStep := .observe ⟨12000000000, 4, 0⟩
    let fast : GuardStep := .observe ⟨4000000000, 4, 0⟩
    Streak 10000000000 recoverStreak (evidenceOf [slow, slow, slow, fast, fast, fast]) := by
  intro slow fast
  refine recovery_needs_streak 10000000000 false [slow, slow, slow, fast, fast, fast] ?_
    [slow, slow, slow, fast, fast] fast [] ⟨10000, 4000, 10000, false, true⟩ rfl (by decide) rfl
  intro front i behind hsplit
  have hinterval := interval_run (newOverrunGuard 10000000000 false) front
  have hmem : i ∈ [slow, slow, slow, fast, fast, fast] := by
    rw [hsplit]
    exact List.mem_append_right _ List.mem_cons_self
  have hcase : i = slow ∨ i = fast := by simpa using hmem
  rcases hcase with rfl | rfl
  · intro _ hover _
    rw [hinterval] at hover
    exact absurd (by decide) hover
  · intro _ _ hhalf
    rw [hinterval] at hhalf
    exact absurd (by decide) hhalf

/-- Eight seconds between the second and the third of the rounds of four. -/
theorem recovery_over_middle_round :
    let slow : GuardStep := .observe ⟨12000000000, 4, 0⟩
    let fast : GuardStep := .observe ⟨4000000000, 4, 0⟩
    let middle : GuardStep := .observe ⟨8000000000, 4, 0⟩
    let front := [slow, slow, slow, fast, fast, middle]
    ((Mealy.run step (newOverrunGuard 10000000000 false) front).1.step fast).2 =
        some ⟨10000, 4000, 10000, false, true⟩ ∧
      ¬ Streak 10000000000 recoverStreak (evidenceOf (front ++ [fast])) := by
  intro slow fast middle front
  refine ⟨by decide, fun h => ?_⟩
  obtain ⟨earlier, last, hsplit, hlen, hfit⟩ := h
  have hlast : last = (evidenceOf (front ++ [fast])).drop 4 := by
    have hearlier : earlier.length = 4 := by
      have hseven : (evidenceOf (front ++ [fast])).length = 7 := by decide
      have htotal : (earlier ++ last).length = 7 := hsplit ▸ hseven
      rw [List.length_append, hlen, recoverStreak] at htotal
      omega
    rw [hsplit, ← hearlier, List.drop_left]
  rw [hlast] at hfit
  exact absurd (hfit ⟨8000000000, 4, 0⟩ (by decide)) (by decide)

end OverrunGuard

end SnmpLens.Monitor
