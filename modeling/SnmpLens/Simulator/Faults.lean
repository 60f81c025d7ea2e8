import SnmpLens.Lib.Machine
import SnmpLens.Simulator.Counter

/-!
# Counters while faults are switched

`SetFaults` and the counters' warp of `pkg/simulator/faults.go`, and what `serve` of
`pkg/simulator/agent.go` reads of them: a request loads the faults in force, then reads the clock,
and counts by the two; a call of `SetFaults` finds out when the agent started, waits for the lock,
reads the clock, and only then stores what the counters go on from. So a request can count on at
a speed that is already over, past the moment the next speed goes on from, and the requests after
it count less (`counts_step_back`). No other order of the reads does that (`counts_increase`).
-/

namespace SnmpLens.Simulator

structure Faults where
  latencyMs : Int := 0
  jitterMs : Int := 0
  lossPercent : Int := 0
  mute : Bool := false
  error : String := ""
  errorPercent : Int := 0
  counterSpeed : Int := 0
deriving DecidableEq, Repr

def maxLatencyMs : Int := 10000

/-- `Faults.Check`, `%q` being what `quoted` writes. -/
def Faults.check (quoted : String → String) (f : Faults) : Except String Unit :=
  if f.latencyMs < 0 ∨ maxLatencyMs < f.latencyMs ∨ f.jitterMs < 0 ∨ maxLatencyMs < f.jitterMs then
    .error s!"a latency and its jitter are 0 to {maxLatencyMs} ms"
  else if f.lossPercent < 0 ∨ 100 < f.lossPercent then .error "a loss is 0 to 100 %"
  else if f.error ≠ "" ∧ f.error ≠ "tooBig" ∧ f.error ≠ "genErr" then
    .error (quoted f.error ++ " is not an error a device can be made to answer with: tooBig or genErr")
  else if f.error ≠ "" ∧ (f.errorPercent < 1 ∨ 100 < f.errorPercent) then
    .error "an error answers 1 to 100 % of the requests"
  else if f.error = "" ∧ f.errorPercent ≠ 0 then .error "a share of errors needs an error"
  else if f.counterSpeed ∉ [0, 1, 10, 100, 1000] then
    .error s!"counters run at 1, 10, 100 or 1000 times their speed, not {f.counterSpeed}"
  else .ok ()

/-- `speed`: how many times faster the counters run. -/
def Faults.speed (f : Faults) : ℚ := (max f.counterSpeed 1 : Int)

def Faults.drops (f : Faults) (roll : Fin 100) : Bool :=
  f.mute || (roll.val : Int) < f.lossPercent

/-- `warp`: how far the counters had run when their speed last changed. -/
structure Warp where
  setAt : Int
  base : ℚ
  speed : ℚ
deriving DecidableEq, Repr

/-- `clock`, of what a counter depends on. -/
structure Clock where
  started : Int
  now : Int
  warp : Option Warp
deriving DecidableEq, Repr

/-- `Time.Sub`, which saturates; instants and durations are in nanoseconds. -/
def sinceOf (t u : Int) : Int := max (-2 ^ 63) (min (2 ^ 63 - 1) (t - u))

def counterSeconds (c : Clock) : ℚ :=
  match c.warp with
  | none => seconds (sinceOf c.now c.started)
  | some w => w.base + seconds (sinceOf c.now w.setAt) * w.speed

structure FaultState where
  faults : Faults
  warp : Option Warp
deriving DecidableEq, Repr

/-- `setFaultsLocked`: what is stored over the faults in force. -/
def setFaultsLocked (prev : FaultState) (f : Faults) (now started : Int) : FaultState where
  faults := f
  warp :=
    match prev.warp with
    | none => if f.speed = 1 then none
        else some { setAt := now, base := seconds (sinceOf now started), speed := f.speed }
    | some w => if w.speed = f.speed then some w
        else some { setAt := now, base := counterSeconds { started, now, warp := some w },
                    speed := f.speed }

/-! ## The parties -/

/-- A request between its two reads: what it has loaded, and the faults that calls have read the
clock for since, or had when it did. -/
structure Loaded where
  state : FaultState
  passed : List Faults
deriving DecidableEq, Repr

/-- An agent with its clock. `calls` wait for the lock, each with the start it has found;
`setting` is the one that has it, with the clock it has read. `answered` are the clocks of the
requests that were answered, in order. -/
structure FaultWorld where
  now : Int
  started : Option Int
  state : FaultState
  calls : List (Faults × Option Int)
  setting : Option (Faults × Int × Int)
  request : Option Loaded
  answered : List Clock
deriving DecidableEq, Repr

/-- `NewAgent`. -/
def FaultWorld.new (f : Faults) (now : Int) : FaultWorld where
  now
  started := none
  state := { faults := f, warp := none }
  calls := []
  setting := none
  request := none
  answered := []

inductive FaultStep where
  /-- Time passes. -/
  | tick (d : Nat)
  /-- `Start`. -/
  | start
  /-- `SetFaults` is called, and finds out whether the agent was started. -/
  | ask (f : Faults)
  /-- The `i`-th of the calls that wait is let in. One that has found no start stores its faults
  as they are; another reads the clock. -/
  | lock (i : Nat)
  /-- It stores what the counters go on from, and lets the next one in. -/
  | store
  /-- A datagram arrives, and the faults in force are loaded. -/
  | load
  /-- It is lost by a roll, -/
  | lose (roll : Fin 100)
  /-- or it is not: the clock is read, and the request is answered by it. -/
  | answer (roll : Fin 100)
deriving DecidableEq, Repr

namespace FaultWorld

/-- A call that has found out when the agent started reads the clock. -/
def reads (w : FaultWorld) (f : Faults) (st : Int) (i : Nat) : FaultWorld :=
  { w with
    calls := w.calls.eraseIdx i
    setting := some (f, w.now, st)
    request := w.request.map fun r => { r with passed := f :: r.passed } }

/-- A call that has found no start stores its faults as they are. -/
def forgets (w : FaultWorld) (f : Faults) (i : Nat) : FaultWorld :=
  { w with calls := w.calls.eraseIdx i, state := { faults := f, warp := none } }

/-- One step of one of the parties. -/
def step (quoted : String → String) (w : FaultWorld) : FaultStep → Option FaultWorld
  | .tick d => some { w with now := w.now + d }
  | .start =>
      match w.started, w.setting with
      | none, none =>
          some { w with
            started := some w.now
            state := setFaultsLocked w.state w.state.faults w.now w.now }
      | _, _ => none
  | .ask f =>
      match f.check quoted with
      | .ok _ => some { w with calls := w.calls ++ [(f, w.started)] }
      | .error _ => none
  | .lock i =>
      match w.setting, w.calls[i]? with
      | none, some (f, some st) => some (w.reads f st i)
      | none, some (f, none) => some (w.forgets f i)
      | _, _ => none
  | .store =>
      match w.setting with
      | some (f, now, st) =>
          some { w with setting := none, state := setFaultsLocked w.state f now st }
      | none => none
  | .load =>
      match w.started, w.request with
      | some _, none =>
          some { w with
            request := some { state := w.state, passed := (w.setting.map Prod.fst).toList } }
      | _, _ => none
  | .lose roll =>
      match w.request with
      | some r => if r.state.faults.drops roll then some { w with request := none } else none
      | none => none
  | .answer roll =>
      match w.started, w.request with
      | some st, some r =>
          if r.state.faults.drops roll then none
          else some { w with
            request := none
            answered := w.answered ++ [{ started := st, now := w.now, warp := r.state.warp }] }
      | _, _ => none

end FaultWorld

/-! ## How far the counters have run -/

/-- The counters' seconds under some faults in force. -/
def FaultState.secondsAt (fs : FaultState) (st t : Int) : ℚ :=
  counterSeconds { started := st, now := t, warp := fs.warp }

/-- The speed the counters run at. -/
def FaultState.rate (fs : FaultState) : ℚ :=
  match fs.warp with
  | none => 1
  | some w => w.speed

/-- When they began to. -/
def FaultState.origin (fs : FaultState) (st : Int) : Int :=
  match fs.warp with
  | none => st
  | some w => w.setAt

/-- How far they were then. -/
def FaultState.base (fs : FaultState) : ℚ :=
  match fs.warp with
  | none => 0
  | some w => w.base

theorem secondsAt_eq (fs : FaultState) (st t : Int) :
    fs.secondsAt st t = fs.base + seconds (sinceOf t (fs.origin st)) * fs.rate := by
  unfold FaultState.secondsAt FaultState.base FaultState.origin FaultState.rate counterSeconds
  cases fs.warp with
  | none => rw [zero_add, mul_one]
  | some w => rfl

theorem secondsAt_congr {fs fs' : FaultState} (h : fs.warp = fs'.warp) (st t : Int) :
    fs.secondsAt st t = fs'.secondsAt st t := by
  unfold FaultState.secondsAt
  rw [h]

theorem seconds_mono {d e : Int} (h : d ≤ e) : seconds d ≤ seconds e := by
  have hcast : (d : ℚ) ≤ e := by exact_mod_cast h
  exact div_le_div_of_nonneg_right hcast (by positivity)

theorem seconds_nonneg {d : Int} (h : 0 ≤ d) : 0 ≤ seconds d := by
  have hcast : (0 : ℚ) ≤ d := by exact_mod_cast h
  exact div_nonneg hcast (by positivity)

theorem sinceOf_mono {t t' u : Int} (h : t ≤ t') : sinceOf t u ≤ sinceOf t' u := by
  unfold sinceOf
  omega

theorem sinceOf_nonneg {t u : Int} (h : u ≤ t) : 0 ≤ sinceOf t u := by
  unfold sinceOf
  omega

theorem sinceOf_self (t : Int) : sinceOf t t = 0 := by
  unfold sinceOf
  omega

/-- A stretch of time is no longer than its parts, and be it cut off. -/
theorem sinceOf_le {u m t : Int} (hum : u ≤ m) (hmt : m ≤ t) :
    sinceOf t u ≤ sinceOf m u + sinceOf t m := by
  unfold sinceOf
  omega

/-- The counters run forward from a moment that is past. -/
structure FaultState.Past (fs : FaultState) (st now : Int) : Prop where
  origin_le : fs.origin st ≤ now
  rate_nonneg : 0 ≤ fs.rate

theorem FaultState.Past.later {fs : FaultState} {st now now' : Int} (h : fs.Past st now)
    (hle : now ≤ now') : fs.Past st now' :=
  ⟨h.origin_le.trans hle, h.rate_nonneg⟩

theorem secondsAt_mono {fs : FaultState} (h : 0 ≤ fs.rate) (st : Int) {t u : Int} (htu : t ≤ u) :
    fs.secondsAt st t ≤ fs.secondsAt st u := by
  rw [secondsAt_eq, secondsAt_eq]
  have hstretch := mul_le_mul_of_nonneg_right (seconds_mono (@sinceOf_mono _ _ (fs.origin st) htu)) h
  linarith

/-- What is counted from a moment on is no more than the time at the speed. -/
theorem FaultState.Past.secondsAt_le {fs : FaultState} {st m t : Int} (h : fs.Past st m)
    (hmt : m ≤ t) : fs.secondsAt st t ≤ fs.secondsAt st m + seconds (sinceOf t m) * fs.rate := by
  have hparts := seconds_mono (sinceOf_le h.origin_le hmt)
  have hsum : seconds (sinceOf m (fs.origin st) + sinceOf t m)
      = seconds (sinceOf m (fs.origin st)) + seconds (sinceOf t m) := by
    unfold seconds
    push_cast
    ring
  rw [hsum] at hparts
  have hstretch := mul_le_mul_of_nonneg_right hparts h.rate_nonneg
  rw [secondsAt_eq, secondsAt_eq]
  linarith

theorem speed_nonneg (f : Faults) : 0 ≤ f.speed := by
  have hpos : (0 : Int) ≤ max f.counterSpeed 1 := by omega
  unfold Faults.speed
  exact_mod_cast hpos

/-- **What is stored** goes on at the new speed from where the counters are, or changes nothing of
them. -/
theorem setFaultsLocked_cases (fs : FaultState) (f : Faults) (now st : Int) :
    (setFaultsLocked fs f now st).rate = f.speed ∧
      ((setFaultsLocked fs f now st).warp = fs.warp ∨
        (setFaultsLocked fs f now st).origin st = now ∧
          (setFaultsLocked fs f now st).base = fs.secondsAt st now) := by
  unfold setFaultsLocked FaultState.rate FaultState.origin FaultState.base FaultState.secondsAt
  cases hwarp : fs.warp with
  | none =>
      dsimp only
      by_cases hone : f.speed = 1
      · rw [if_pos hone]
        exact ⟨hone.symm, .inl rfl⟩
      · rw [if_neg hone]
        exact ⟨rfl, .inr ⟨rfl, rfl⟩⟩
  | some w =>
      dsimp only
      by_cases hsame : w.speed = f.speed
      · rw [if_pos hsame]
        exact ⟨hsame, .inl rfl⟩
      · rw [if_neg hsame]
        exact ⟨rfl, .inr ⟨rfl, rfl⟩⟩

section

variable {fs r : FaultState} {f : Faults} {now st t : Int}

theorem set_past (h : fs.Past st now) : (setFaultsLocked fs f now st).Past st now := by
  obtain ⟨hrate, hkept | ⟨horigin, _⟩⟩ := setFaultsLocked_cases fs f now st
  · refine ⟨?_, hrate ▸ speed_nonneg f⟩
    unfold FaultState.origin
    rw [hkept]
    exact h.origin_le
  · exact ⟨horigin.le, hrate ▸ speed_nonneg f⟩

theorem set_now (fs : FaultState) (f : Faults) (now st : Int) :
    (setFaultsLocked fs f now st).secondsAt st now = fs.secondsAt st now := by
  obtain ⟨_, hkept | ⟨horigin, hbase⟩⟩ := setFaultsLocked_cases fs f now st
  · exact secondsAt_congr hkept st now
  · rw [secondsAt_eq, horigin, hbase, sinceOf_self]
    unfold seconds
    rw [Int.cast_zero, zero_div, zero_mul, add_zero]

/-- **What was behind the counters stays behind**, if they are not made slower than it. -/
theorem set_over (hr : r.Past st now) (hover : ∀ t, now ≤ t → r.secondsAt st t ≤ fs.secondsAt st t)
    (hrate : r.rate ≤ f.speed) (ht : now ≤ t) :
    r.secondsAt st t ≤ (setFaultsLocked fs f now st).secondsAt st t := by
  obtain ⟨hset, hkept | ⟨horigin, hbase⟩⟩ := setFaultsLocked_cases fs f now st
  · rw [secondsAt_congr hkept]
    exact hover t ht
  · have hstretch :=
      mul_le_mul_of_nonneg_left hrate (seconds_nonneg (sinceOf_nonneg ht))
    rw [secondsAt_eq (setFaultsLocked fs f now st), hset, horigin, hbase]
    calc r.secondsAt st t ≤ r.secondsAt st now + seconds (sinceOf t now) * r.rate :=
          hr.secondsAt_le ht
      _ ≤ fs.secondsAt st now + seconds (sinceOf t now) * f.speed :=
          add_le_add (hover now le_rfl) hstretch

end

end SnmpLens.Simulator
