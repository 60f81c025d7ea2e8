import Mathlib.Data.List.DropRight
import Mathlib.Data.List.Perm.Subperm
import SnmpLens.Lib.Machine

/-!
# The list of sessions and the poll clock

`frontend/src/stores/pollingStore.js` over the bound methods of `internal/app/monitor.go` and the
loops of `pkg/monitor/scheduler.go`. The window keeps a list of sessions, which `initFromBackend`
reads at startup and the other operations edit meanwhile. Its calls are executed at any time; what
Go sends, answers and samples alike, is delivered in the order it was sent. All calls succeed. The
answers of `MonitorStart`, `MonitorDeleteSession` and the `MonitorStop` of `stopPolling` change
nothing and are left out, and there is no list from before the database to migrate.

A session is its id: the row Go stores under it does not change in what is read here. A round is the
points it queues and then pushes, and a point is a number that no other point has.
-/

namespace SnmpLens.Polling

open Machine

abbrev Id := String

abbrev Point := Nat

/-! ## The window -/

/-- The row of a session. -/
structure Row where
  oids : List String
  targets : List String
  /-- The session was stored with its connection. -/
  conn : Bool

structure Session where
  id : Id
  results : List Point
  running : Bool
deriving DecidableEq

def maxDataPoints : Nat := 5000

/-- The buffer is capped per series. -/
def Row.cap (row : Row) : Nat :=
  maxDataPoints * max 1 row.targets.length * max 1 row.oids.length

def sessionFromBackend (id : Id) (results : List Point) : Session := { id, results, running := false }

def markRunning (sessions : List Session) (id : Id) (running : Bool) : List Session :=
  sessions.map fun s => if s.id = id then { s with running } else s

/-- The handler of `monitor:samples`. -/
def received (row : Id → Row) (sessions : List Session) (id : Id) (points : List Point) :
    List Session :=
  sessions.map fun s =>
    if s.id = id then
      { s with
        results :=
          if (row id).cap < (s.results ++ points).length then
            (s.results ++ points).rtake (row id).cap
          else s.results ++ points
        running := true }
    else s

def adoptSession (sessions : List Session) (id : Id) : List Session :=
  if sessions.any (fun s => s.id == id) then markRunning sessions id true
  else sessions ++ [{ sessionFromBackend id [] with running := true }]

/-- Where `initFromBackend` is. -/
inductive Init where
  | waiting
  | sessions
  /-- The data of the first of these is awaited; the others are loaded. -/
  | data (todo : List Id) (loaded : List Session)
  | running
  | done

/-- `initFromBackend` has set the list and not asked which sessions run. -/
def Init.settling : Init → Bool
  | .running => true
  | _ => false

/-- `initFromBackend` has set the list. -/
def Init.ready : Init → Bool
  | .running => true
  | .done => true
  | _ => false

/-! ## Between the window and Go -/

inductive Call where
  | create
  /-- `MonitorCreateSession` has stored the row. -/
  | storing (id : Id)
  | bind
  /-- `PresetBind` has stored the row and is to start it. -/
  | binding (id : Id)
  | bound (id : Id)
  | start (id : Id)
  /-- `MonitorStop`, of `stopPolling` or of `removeSession`. -/
  | stop (id : Id) (remove : Bool)
  /-- The loop is cancelled and has not ended. -/
  | stopping (id : Id) (remove : Bool) (loop : Nat)
  | delete (id : Id)
  | loadSessions
  | loadData (id : Id)
  | running
deriving DecidableEq

inductive Msg where
  | samples (id : Id) (points : List Point)
  | created (id : Id)
  | bound (id : Id)
  /-- The `MonitorStop` of a removal is answered. -/
  | stopped (id : Id)
  | sessions (ids : List Id)
  | data (points : List Point)
  | running (live : Id → Bool)

/-- A goroutine of the scheduler. -/
structure Loop where
  id : Id
  number : Nat
  /-- The points that are queued and not pushed. -/
  round : List Point := []
  cancelled : Bool := false

structure Mirror where
  /-- The sessions Go stores. -/
  stored : List Id
  /-- The points in the table, and those in the batch. -/
  points : Id → List Point
  queued : Id → List Point := fun _ => []
  /-- The loop the scheduler's map has for a session. -/
  handle : Id → Option Nat
  loops : List Loop
  nextLoop : Nat
  nextPoint : Nat
  calls : List Call := []
  inbox : List Msg := []
  sessions : List Session := []
  init : Init := .waiting
  /-- `settings.polling.autoResume`. -/
  autoResume : Bool
  /-- The points that were delivered since a session was first listed. -/
  since : Id → Option (List Point) := fun _ => none

inductive Act where
  | init
  /-- `startPolling`, for one group of targets. -/
  | startPolling
  | bindPreset
  | resumeSession (id : Id)
  | stopPolling (id : Id)
  | removeSession (id : Id)
  /-- What Go sent first arrives. -/
  | deliver
  /-- The row of a new session is stored. -/
  | store (c : Call) (id : Id)
  /-- Go goes on with a call. -/
  | exec (c : Call)
  /-- `QueryDataPoints` finds these points. -/
  | query (id : Id) (points : List Point)
  /-- A loop fetches a round of so many points and queues them. -/
  | round (loop : Nat) (count : Nat)
  | push (loop : Nat)
  | ends (loop : Nat)
  | flush (id : Id)

/-- What a call is about. -/
def Call.about (id : Id) : Call → Bool
  | .storing i => i == id
  | .binding i => i == id
  | .bound i => i == id
  | .start i => i == id
  | .stop i _ => i == id
  | .stopping i _ _ => i == id
  | .delete i => i == id
  | _ => false

/-- The call is to start the session. -/
def Call.starts (id : Id) : Call → Bool
  | .start i => i == id
  | .binding i => i == id
  | _ => false

/-- The call is to stop the session. -/
def Call.stops (id : Id) : Call → Bool
  | .stop i _ => i == id
  | _ => false

/-- The call is the stop of a removal. -/
def Call.removes (id : Id) : Call → Bool
  | .stop i remove => remove && i == id
  | .stopping i remove _ => remove && i == id
  | _ => false

/-- The session has been stopped for its removal, and its row is to be deleted. -/
def Call.leaves (id : Id) : Call → Bool
  | .stopping i remove _ => remove && i == id
  | .delete i => i == id
  | _ => false

/-- The call brings a new session. -/
def Call.arrives (id : Id) : Call → Bool
  | .storing i => i == id
  | .binding i => i == id
  | .bound i => i == id
  | _ => false

/-- The call was made for a session of the list. -/
def Call.listed (id : Id) : Call → Bool
  | .start i => i == id
  | .stop i _ => i == id
  | .stopping i _ _ => i == id
  | .delete i => i == id
  | _ => false

def Msg.arrives (id : Id) : Msg → Bool
  | .created i => i == id
  | .bound i => i == id
  | _ => false

def Msg.stops (id : Id) : Msg → Bool
  | .stopped i => i == id
  | _ => false

def Msg.points : Msg → List Point
  | .samples _ points => points
  | _ => []

namespace Mirror

variable (row : Id → Row)

/-! ## What the window does -/

def ids (s : Mirror) : List Id := s.sessions.map Session.id

/-- Sessions are listed. -/
def lists (s : Mirror) (sessions : List Session) : Mirror :=
  { s with
    sessions
    since := fun id =>
      if id ∈ sessions.map Session.id then some ((s.since id).getD []) else s.since id }

def calls_ (s : Mirror) (c : Call) : Mirror := { s with calls := c :: s.calls }

def resumeSession (s : Mirror) (id : Id) : Mirror :=
  { s with sessions := markRunning s.sessions id true }.calls_ (.start id)

/-- The sessions `reconcileWithScheduler` resumes. -/
def toResume (s : Mirror) (live : Id → Bool) : List Id :=
  if s.autoResume then
    (s.sessions.filter fun e => !live e.id && (row e.id).conn && !e.results.isEmpty).map Session.id
  else []

def reconcile (s : Mirror) (live : Id → Bool) : Mirror :=
  { s with
    sessions := s.sessions.map fun e =>
      { e with running := live e.id || (s.toResume row live).contains e.id }
    calls := (s.toResume row live).map Call.start ++ s.calls
    init := .done }

/-- The data of a session arrive. -/
def loads (s : Mirror) (points : List Point) : Mirror :=
  match s.init with
  | .data [id] loaded =>
      ({ s with init := .running }.lists (loaded ++ [sessionFromBackend id points])).calls_ .running
  | .data (id :: next :: todo) loaded =>
      { s with
        init := .data (next :: todo) (loaded ++ [sessionFromBackend id points]) }.calls_
          (.loadData next)
  | _ => s

def arrive (s : Mirror) : Msg → Mirror
  | .samples id points =>
      { s with
        sessions := received row s.sessions id points
        since := fun i => if i = id then (s.since id).map (· ++ points) else s.since i }
  | .created id =>
      (s.lists (s.sessions ++ [{ sessionFromBackend id [] with running := true }])).calls_ (.start id)
  | .bound id => s.lists (adoptSession s.sessions id)
  | .stopped id =>
      { s with sessions := s.sessions.filter fun e => e.id != id }.calls_ (.delete id)
  | .sessions ids =>
      match ids with
      | [] => { s with init := .done }
      | id :: _ => { s with init := .data ids [] }.calls_ (.loadData id)
  | .data points => s.loads points
  | .running live => s.reconcile row live

/-! ## What Go does -/

/-- The loops, of which one has changed. -/
def onLoop (s : Mirror) (n : Nat) (f : Loop → Loop) : List Loop :=
  s.loops.map fun l => if l.number = n then f l else l

def sends (s : Mirror) (m : Msg) : Mirror := { s with inbox := s.inbox ++ [m] }

/-- `Start`, which does nothing for a session that has a loop, or nothing to poll. -/
def starts (s : Mirror) (id : Id) : Mirror :=
  if (row id).oids = [] ∨ (row id).targets = [] then s
  else match s.handle id with
    | some _ => s
    | none =>
        { s with
          handle := fun i => if i = id then some s.nextLoop else s.handle i
          loops := s.loops ++ [{ id, number := s.nextLoop }]
          nextLoop := s.nextLoop + 1 }

/-- An id that nothing has. -/
def New (s : Mirror) (id : Id) : Prop :=
  id ∉ s.stored ∧ s.since id = none ∧ s.handle id = none ∧
    s.calls.any (Call.about id) = false ∧
    s.inbox.any (fun m => m.arrives id || m.stops id) = false

instance (s : Mirror) (id : Id) : Decidable (s.New id) :=
  inferInstanceAs (Decidable (_ ∧ _ ∧ _ ∧ _ ∧ _))

/-- The call is over. -/
def drop (s : Mirror) (c : Call) : Mirror := { s with calls := s.calls.erase c }

def exec (s : Mirror) : Call → Option Mirror
  | .storing id => some (s.sends (.created id))
  | .binding id => some ((s.starts row id).calls_ (.bound id))
  | .bound id => some (s.sends (.bound id))
  | .start id => if id ∈ s.stored then some (s.starts row id) else none
  | .stop id remove =>
      match s.handle id with
      | some n => some ({ s with
          handle := fun i => if i = id then none else s.handle i
          loops := s.onLoop n fun l => { l with cancelled := true } }.calls_ (.stopping id remove n))
      | none => some (if remove then s.sends (.stopped id) else s)
  | .stopping id remove n =>
      if s.loops.any (fun l => l.number == n) then none
      else some (if remove then s.sends (.stopped id) else s)
  | .delete id => some { s with
      stored := s.stored.filter fun i => i != id
      points := fun i => if i = id then [] else s.points i }
  | .loadSessions => some (s.sends (.sessions s.stored))
  | .running => some (s.sends (.running fun id => (s.handle id).isSome))
  | _ => none

def step (s : Mirror) : Act → Option Mirror
  | .init =>
      match s.init with
      | .waiting => some ({ s with init := .sessions }.calls_ .loadSessions)
      | _ => none
  | .startPolling => some (s.calls_ .create)
  | .bindPreset => some (s.calls_ .bind)
  | .resumeSession id => some (s.resumeSession id)
  | .stopPolling id =>
      some ({ s with sessions := markRunning s.sessions id false }.calls_ (.stop id false))
  | .removeSession id => some (s.calls_ (.stop id true))
  | .deliver =>
      match s.inbox with
      | [] => none
      | m :: rest => some ({ s with inbox := rest }.arrive row m)
  | .store c id =>
      if c ∈ s.calls ∧ s.New id then
        match c with
        | .create => some ({ s with stored := s.stored ++ [id] }.drop c |>.calls_ (.storing id))
        | .bind => some ({ s with stored := s.stored ++ [id] }.drop c |>.calls_ (.binding id))
        | _ => none
      else none
  | .exec c => if c ∈ s.calls then (s.drop c).exec row c else none
  | .query id points =>
      -- the newest by the text of their timestamps, in that order
      if .loadData id ∈ s.calls ∧ points.Subperm (s.points id) ∧
          points.length = min (maxDataPoints * max 1 (row id).targets.length) (s.points id).length then
        some ((s.drop (.loadData id)).sends (.data points))
      else none
  | .round n count =>
      match s.loops.find? fun l => l.number == n && l.round.isEmpty && !l.cancelled with
      | none => none
      | some l => some { s with
          queued := fun i => if i = l.id then s.queued i ++ List.range' s.nextPoint count
            else s.queued i
          loops := s.onLoop n fun l => { l with round := List.range' s.nextPoint count }
          nextPoint := s.nextPoint + count }
  | .push n =>
      match s.loops.find? fun l => l.number == n && !l.round.isEmpty with
      | none => none
      | some l => some ({ s with
          loops := s.onLoop n fun l => { l with round := [] } }.sends (.samples l.id l.round))
  | .ends n =>
      match s.loops.find? fun l => l.number == n && l.round.isEmpty && l.cancelled with
      | none => none
      | some _ => some { s with loops := s.loops.filter fun l => l.number != n }
  | .flush id =>
      if id ∈ s.stored then some { s with
        points := fun i => if i = id then s.points i ++ s.queued i else s.points i
        queued := fun i => if i = id then [] else s.queued i }
      else none

/-! ## When a step finds what it counts on -/

def starting (s : Mirror) (id : Id) : Bool := s.calls.any (Call.starts id)

def stopping (s : Mirror) (id : Id) : Bool := s.calls.any (Call.stops id)

/-- The session is listed until its stop is answered. -/
def removing (s : Mirror) (id : Id) : Bool :=
  s.calls.any (Call.removes id) || s.inbox.any (Msg.stops id)

def leaving (s : Mirror) (id : Id) : Bool :=
  s.calls.any (Call.leaves id) || s.inbox.any (Msg.stops id)

def deleting (s : Mirror) (id : Id) : Bool := s.calls.any fun c => c == .delete id

def arriving (s : Mirror) (id : Id) : Bool :=
  s.calls.any (Call.arrives id) || s.inbox.any (Msg.arrives id)

/-- Whether the session is polled once its calls are executed. -/
def target (s : Mirror) (id : Id) : Bool :=
  s.starting id || (!s.stopping id && (s.handle id).isSome)

/-- The points that are on their way to the window. -/
def coming (s : Mirror) : List Point :=
  s.inbox.flatMap Msg.points ++ s.loops.flatMap Loop.round

/-- The flag of a session may be set. -/
def Runs (s : Mirror) (id : Id) : Prop :=
  s.init.settling = true ∨ s.removing id = true ∨ s.target id = true

/-- What was loaded is what is stored, but for the sessions that are on their way into the list or
out of it; the results of a session that is listed are the end of what was loaded of it; and nothing
that was loaded is yet to arrive. -/
def Replaces (s : Mirror) (loaded : List Session) : Prop :=
  (∀ l ∈ loaded, l.id ∈ s.stored ∧ s.deleting l.id = false ∧
    (∀ e ∈ s.sessions, e.id = l.id → e.results <:+ l.results) ∧
    ∀ p ∈ l.results, p ∉ s.coming) ∧
  ∀ id ∈ s.stored, id ∈ loaded.map Session.id ∨ s.deleting id = true ∨
    (s.since id = none ∧ s.arriving id = true)

/-- A message arrives that the list is ready for. -/
def Fits (s : Mirror) : Msg → Prop
  | .samples id _ => id ∈ s.ids → s.Runs id
  | .created id => s.since id = none
  | .bound id => (id ∈ s.ids ∨ s.since id = none) ∧ s.Runs id
  | .stopped _ => True
  | .sessions ids => ids = [] → ∀ id ∈ s.stored, s.since id = none → s.arriving id = true
  | .data points =>
      match s.init with
      | .data [id] loaded => s.Replaces (loaded ++ [sessionFromBackend id points])
      | _ => True
  | .running live => ∀ e ∈ s.sessions,
      if e.id ∈ s.toResume row live then s.stopping e.id = false ∧ s.removing e.id = false
      else s.removing e.id = true ∨ live e.id = s.target e.id

/-- A session of the list is started while no stop of it is on its way, and stopped while no start
is; a session is started that has something to poll; and every message fits. -/
def Orderly (s : Mirror) : Act → Prop
  | .resumeSession id => id ∈ s.ids ∧ s.stopping id = false ∧ s.removing id = false
  | .stopPolling id => id ∈ s.ids ∧ s.starting id = false
  | .removeSession id => id ∈ s.ids ∧ s.starting id = false
  | .exec (.start id) => (row id).oids ≠ [] ∧ (row id).targets ≠ []
  | .exec (.binding id) => (row id).oids ≠ [] ∧ (row id).targets ≠ []
  | .deliver => ∀ m ∈ s.inbox.head?, s.Fits row m
  | _ => True

section decidable

instance (s : Mirror) (id : Id) : Decidable (s.Runs id) :=
  inferInstanceAs (Decidable (_ ∨ _ ∨ _))

instance (s : Mirror) (loaded : List Session) : Decidable (s.Replaces loaded) :=
  inferInstanceAs (Decidable ((∀ l ∈ loaded, l.id ∈ s.stored ∧ s.deleting l.id = false ∧
    (∀ e ∈ s.sessions, e.id = l.id → e.results <:+ l.results) ∧
      ∀ p ∈ l.results, p ∉ s.coming) ∧
    ∀ id ∈ s.stored, id ∈ loaded.map Session.id ∨ s.deleting id = true ∨
      (s.since id = none ∧ s.arriving id = true)))

instance (s : Mirror) (points : List Point) : Decidable (s.Fits row (.data points)) :=
  match h : s.init with
  | .data [id] loaded =>
      decidable_of_iff (s.Replaces (loaded ++ [sessionFromBackend id points])) (by simp [Fits, h])
  | .data [] _ => isTrue (by simp [Fits, h])
  | .data (_ :: _ :: _) _ => isTrue (by simp [Fits, h])
  | .waiting => isTrue (by simp [Fits, h])
  | .sessions => isTrue (by simp [Fits, h])
  | .running => isTrue (by simp [Fits, h])
  | .done => isTrue (by simp [Fits, h])

instance (s : Mirror) : (m : Msg) → Decidable (s.Fits row m)
  | .samples id _ => inferInstanceAs (Decidable (id ∈ s.ids → s.Runs id))
  | .created id => inferInstanceAs (Decidable (s.since id = none))
  | .bound id => inferInstanceAs (Decidable ((id ∈ s.ids ∨ s.since id = none) ∧ s.Runs id))
  | .stopped _ => inferInstanceAs (Decidable True)
  | .sessions ids => inferInstanceAs (Decidable
      (ids = [] → ∀ id ∈ s.stored, s.since id = none → s.arriving id = true))
  | .data points => inferInstanceAs (Decidable (s.Fits row (.data points)))
  | .running live => inferInstanceAs (Decidable (∀ e ∈ s.sessions,
      if e.id ∈ s.toResume row live then s.stopping e.id = false ∧ s.removing e.id = false
      else s.removing e.id = true ∨ live e.id = s.target e.id))

instance (s : Mirror) : (a : Act) → Decidable (s.Orderly row a)
  | .resumeSession id => inferInstanceAs
      (Decidable (id ∈ s.ids ∧ s.stopping id = false ∧ s.removing id = false))
  | .stopPolling id => inferInstanceAs (Decidable (id ∈ s.ids ∧ s.starting id = false))
  | .removeSession id => inferInstanceAs (Decidable (id ∈ s.ids ∧ s.starting id = false))
  | .exec (.start id) => inferInstanceAs
      (Decidable ((row id).oids ≠ [] ∧ (row id).targets ≠ []))
  | .exec (.binding id) => inferInstanceAs
      (Decidable ((row id).oids ≠ [] ∧ (row id).targets ≠ []))
  | .deliver => inferInstanceAs (Decidable (∀ m ∈ s.inbox.head?, s.Fits row m))
  | .init | .startPolling | .bindPreset | .store _ _ | .query _ _ | .round _ _ | .push _ | .ends _
  | .flush _ => inferInstanceAs (Decidable True)
  | .exec .create | .exec (.storing _) | .exec .bind | .exec (.bound _) | .exec (.stop _ _)
  | .exec (.stopping _ _ _) | .exec (.delete _) | .exec .loadSessions | .exec (.loadData _)
  | .exec .running => inferInstanceAs (Decidable True)

end decidable

/-! ## What the list is for -/

/-- Nothing is on its way, and no loop is in a round. -/
def Settled (s : Mirror) : Prop :=
  s.calls = [] ∧ s.inbox = [] ∧ s.init = .done ∧ ∀ l ∈ s.loops, l.round = []

/-- **The list mirrors the scheduler.** -/
structure Mirrors (s : Mirror) : Prop where
  once : s.ids.Nodup
  stored : ∀ id, id ∈ s.ids ↔ id ∈ s.stored
  running : ∀ e ∈ s.sessions, e.running = (s.handle e.id).isSome
  polled : ∀ id, (s.handle id).isSome → id ∈ s.ids
  results : ∀ e ∈ s.sessions, e.results.Nodup
  /-- The last of the points since it was listed are the last of the results. -/
  since : ∀ e ∈ s.sessions, ∀ points, s.since e.id = some points →
    points.rtake (row e.id).cap <:+ e.results

end Mirror

end SnmpLens.Polling
