import SnmpLens.Lib.Machine
import SnmpLens.Simulator.Custom
import SnmpLens.Simulator.Service

/-!
# What a device sends

The queues of `pkg/simulator/notify.go`. Every destination has one, and a goroutine that empties it;
any number of callers offer it notifications meanwhile, and a call of `Notify` waits for what becomes
of its own. Channel operations are steps, and so is the outcome of a delivery with its `record`. How
a delivery ends is in the label.
-/

namespace SnmpLens.Simulator

open Utf8 Strings Machine

/-! ## A destination -/

def queueDepth : Nat := 32

def errQueueFull : Octets := octets "too many notifications are waiting for this destination"

/-- A notification to send, and the channel of the call that waits for it. -/
structure Job where
  n : Notification
  done : Option Nat
deriving DecidableEq

/-- What became of a notification at a destination. -/
structure Delivery where
  id : Octets
  destination : Octets
  inform : Bool
  acknowledged : Bool
  error : Octets
deriving DecidableEq

/-- The goroutine. Once stopped it leaves what it was delivering. -/
inductive Runner where
  | idle
  | sending (j : Job)
  | gone (left : Option Job)

def Runner.hand : Runner → List Job
  | idle => []
  | sending j => [j]
  | gone left => left.toList

structure Outbound where
  dest : Destination
  queue : List Job := []
  runner : Runner := .idle
  stopped : Bool := false
  sent : UInt32 := 0
  failed : UInt32 := 0
  dropped : UInt32 := 0
  lastError : Octets := []
  /-- History: the jobs that were offered, and whether the queue took them. -/
  offered : List (Job × Bool) := []
  /-- History: the jobs that were delivered or failed, and how. -/
  tried : List (Job × Option Octets) := []
  /-- History: what was sent on the channels. -/
  told : List (Nat × Delivery) := []

inductive OutboundStep where
  | offer (j : Job)
  | take
  | finish (err : Option Octets)
  | stop
  | leave

namespace Outbound

def delivery (o : Outbound) (err : Option Octets) : Delivery where
  id := o.dest.id
  destination := joinHostPort o.dest.host o.dest.port.toNat
  inform := o.dest.inform
  acknowledged := err.isNone && o.dest.inform
  error := err.getD []

/-- `done <- o.delivery(err)`, where somebody waits. -/
def tell (o : Outbound) (j : Job) (err : Option Octets) : Outbound :=
  { o with told := o.told ++ j.done.toList.map fun c => (c, o.delivery err) }

/-- One turn of the loop of `enqueue`. -/
def offer (o : Outbound) (j : Job) : Outbound :=
  if o.queue.length < queueDepth then
    { o with queue := o.queue ++ [j], offered := o.offered ++ [(j, true)] }
  else
    { o with dropped := o.dropped + 1, offered := o.offered ++ [(j, false)] }.tell j errQueueFull

def record (o : Outbound) : Option Octets → Outbound
  | none => { o with sent := o.sent + 1 }
  | some err => { o with failed := o.failed + 1, lastError := err }

def step (o : Outbound) : OutboundStep → Option Outbound
  | .offer j => some (o.offer j)
  | .take =>
      match o.runner, o.queue with
      | .idle, j :: queue => some { o with runner := .sending j, queue }
      | _, _ => none
  | .finish err =>
      match o.runner with
      | .sending j =>
          -- stopped in the middle of it, which is not an outcome
          if o.stopped then some { o with runner := .gone (some j) }
          else some (({ o with runner := .idle, tried := o.tried ++ [(j, err)] }.record err).tell j err)
      | _ => none
  | .stop => some { o with stopped := true }
  | .leave =>
      match o.runner, o.stopped with
      | .idle, true => some { o with runner := .gone none }
      | _, _ => none

/-- The queue, the counters and the channels, as the history has them. -/
structure Accounted (o : Outbound) : Prop where
  /-- What the queue took is sent in the order in which it was offered. -/
  order : (o.offered.filter Prod.snd).map Prod.fst = o.tried.map Prod.fst ++ o.runner.hand ++ o.queue
  room : o.queue.length ≤ queueDepth
  dropped : o.dropped = .ofNat (o.offered.countP fun x => !x.2)
  sent : o.sent = .ofNat (o.tried.countP fun x => x.2.isNone)
  failed : o.failed = .ofNat (o.tried.countP fun x => x.2.isSome)
  lastError : o.lastError = (o.tried.filterMap Prod.snd).getLastD []
  /-- A call is told once of everything it offered, but for what still waits. -/
  told : ∀ c, (o.told.countP fun x => x.1 == c) +
      ((o.runner.hand ++ o.queue).countP fun j => j.done == some c) =
    o.offered.countP fun x => x.1.done == some c

variable {o o' : Outbound}

theorem countP_tell (o : Outbound) (j : Job) (err : Option Octets) (c : Nat) :
    ((o.tell j err).told.countP fun x => x.1 == c) =
      (o.told.countP fun x => x.1 == c) + if j.done == some c then 1 else 0 := by
  cases hd : j.done <;> simp [tell, hd]

theorem accounted_offer (h : o.Accounted) (j : Job) : (o.offer j).Accounted := by
  obtain ⟨horder, hroom, hdropped, hsent, hfailed, hlast, htold⟩ := h
  unfold offer
  split
  · refine ⟨by simp [horder], by simp; omega, by simpa using hdropped, hsent, hfailed, hlast,
      fun c => ?_⟩
    have hc := htold c
    simp only [List.countP_append, List.countP_singleton] at hc ⊢
    omega
  · refine ⟨by simpa [tell] using horder, hroom, by simp [tell, hdropped], hsent, hfailed, hlast,
      fun c => ?_⟩
    rw [countP_tell]
    have hc := htold c
    simp only [tell, List.countP_append, List.countP_singleton] at hc ⊢
    omega

theorem accounted_finish (h : o.Accounted) {j : Job} (hr : o.runner = .sending j) (err : Option Octets) :
    (({ o with runner := .idle, tried := o.tried ++ [(j, err)] }.record err).tell j err).Accounted := by
  obtain ⟨horder, hroom, hdropped, hsent, hfailed, hlast, htold⟩ := h
  have horder : (o.offered.filter Prod.snd).map Prod.fst =
      (o.tried ++ [(j, err)]).map Prod.fst ++ [] ++ o.queue := by
    simpa [hr, Runner.hand] using horder
  have htold : ∀ c, (o.told.countP fun x => x.1 == c) + (if j.done == some c then 1 else 0) +
      (o.queue.countP fun j => j.done == some c) = o.offered.countP fun x => x.1.done == some c := by
    intro c
    rw [← htold c, hr, Runner.hand, List.countP_append, List.countP_singleton, Nat.add_assoc]
  cases err <;> exact ⟨horder, hroom, hdropped, by simp [tell, record, hsent],
    by simp [tell, record, hfailed], by simp [tell, record, hlast],
    fun c => by rw [countP_tell]; exact htold c⟩

/-- What is in hand and what is queued are the same jobs. -/
theorem accounted_hand (h : o.Accounted) {queue : List Job} {runner : Runner}
    (hsame : runner.hand ++ queue = o.runner.hand ++ o.queue) (hroom : queue.length ≤ o.queue.length) :
    ({ o with queue, runner } : Outbound).Accounted where
  order := by simpa [hsame] using h.order
  room := hroom.trans h.room
  dropped := h.dropped
  sent := h.sent
  failed := h.failed
  lastError := h.lastError
  told := fun c => by simpa only [hsame] using h.told c

theorem accounted_step (h : o.Accounted) {a : OutboundStep} (hs : o.step a = some o') : o'.Accounted := by
  cases a with
  | offer j => exact Option.some.inj hs ▸ accounted_offer h j
  | take =>
      simp only [step] at hs
      split at hs
      · rename_i j queue hr hq
        cases hs
        exact accounted_hand h (by rw [hr, hq]; rfl) (by rw [hq]; exact Nat.le_succ _)
      · cases hs
  | finish err =>
      simp only [step] at hs
      split at hs
      · rename_i j hr
        split at hs
        · cases hs
          exact accounted_hand h (by rw [hr]; rfl) le_rfl
        · cases hs
          exact accounted_finish h hr err
      · cases hs
  | stop =>
      cases hs
      exact ⟨h.order, h.room, h.dropped, h.sent, h.failed, h.lastError, h.told⟩
  | leave =>
      simp only [step] at hs
      split at hs
      · rename_i hr _
        cases hs
        exact accounted_hand h (by rw [hr]; rfl) le_rfl
      · cases hs

end Outbound

/-- **Every notification is accounted for**: in whatever order callers offer them, what is offered to
a destination was sent, has failed, was dropped or waits, and was sent in order; and a call that waits
is told once of each. -/
theorem accounted_of_run {dest : Destination} {o : Outbound} {moves : List OutboundStep}
    (h : Run Outbound.step (fun _ _ => True) { dest } moves o) : o.Accounted :=
  h.invariant ⟨rfl, Nat.zero_le _, rfl, rfl, rfl, rfl, fun _ => rfl⟩
    fun _ _ _ ho _ hs => Outbound.accounted_step ho hs

/-- One notification is sent, and somebody waits for it. -/
def informed : List OutboundStep :=
  [.offer { n := { name := octets "coldStart", oid := [], objects := [] }, done := some 0 }, .take,
    .finish none]

theorem accounted_of_run_informed : ∃ o,
    Run Outbound.step (fun _ _ => True) { dest := { id := [], host := [] } } informed o ∧
      o.Accounted := by
  have hend : ∃ o, exec Outbound.step { dest := { id := [], host := [] } } informed = some o := ⟨_, rfl⟩
  obtain ⟨o, ho⟩ := hend
  exact ⟨o, run_of_exec ho, accounted_of_run (run_of_exec ho)⟩

end SnmpLens.Simulator
