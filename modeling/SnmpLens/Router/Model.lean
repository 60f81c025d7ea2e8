import SnmpLens.Lib.Machine
import SnmpLens.Events.Event

/-!
# The event router

`internal/app/router.go` and the half of `app.go` that feeds it: an event is
journalled on its producer's goroutine (`InsertEvent`), handed to the router
(`accept`), routed in batches (`flush`) and written to the outbox together with
the watermark (`EnqueueRouted`). A full queue routes the event inline instead,
and whatever a crash left unrouted is replayed at the next start
(`replayUnrouted`).

The model is a labelled machine. Every critical section of the source — one
statement on the database, one section under `mu`, one channel operation — is
one step, and any number of producers stand between any two of them: `committed`
holds the events whose `InsertEvent` has returned and whose `accept` has not
begun, `offered` those registered in `inflight` and not yet sent on the channel,
`refused` those the channel had no room for, `inline` those being routed by
their own producer. What the environment decides is in the label.

Which deliveries an event selects is `groupsFor`, a parameter: `routedGroupsFor`
reads the rules and the destinations and computes the groups from them, or fails
to read them. The results about the watermark do not depend on what it computes.
-/

namespace SnmpLens.Router

open Events

/-- How many journalled events may be waiting to be routed. -/
def routeQueueDepth : Nat := 2048

/-- The bound on one transaction. -/
def routeBatchSize : Nat := 50

/-- One rendering, and the sinks it goes to (`storage.RoutedGroup`). -/
structure RoutedGroup where
  event : Event
  sinkIDs : List String
  subject : String := ""
  body : String := ""
deriving DecidableEq, Repr

/-- The outbox rows a group stands for, by their `UNIQUE(event_id, sink_id)`. -/
def RoutedGroup.rows (g : RoutedGroup) : List (String × String) :=
  g.sinkIDs.map fun s => (g.event.id, s)

/--
What routing reads and writes of `monitoring.db`.

`outbox` is every row ever inserted in `notify_outbox`: what becomes of a
delivery afterwards is the dispatcher's business. `seq` is AUTOINCREMENT, so
`nextSeq` only grows and no deleted event's `seq` comes back.
-/
structure DB where
  events : List Event
  nextSeq : Nat
  outbox : List (String × String)
  routedThrough : Nat
  ascending : events.Pairwise fun a b => a.seq < b.seq
  below : ∀ e ∈ events, e.seq < nextSeq
  positive : ∀ e ∈ events, 0 < e.seq
  nextSeq_pos : 0 < nextSeq

/-- The database `Init` creates. -/
def DB.empty : DB where
  events := []
  nextSeq := 1
  outbox := []
  routedThrough := 0
  ascending := .nil
  below := by simp
  positive := by simp
  nextSeq_pos := Nat.one_pos

/-- The values `InsertEvent` fills in when the caller left them empty. -/
def withDefaults (uuid now : String) (payload : Nat) (e : Event) : Event :=
  { e with
    id := if e.id == "" then uuid else e.id
    ts := if e.ts == "" then now else e.ts
    state := if e.state == "" then stateOneshot else e.state
    summary := if e.summary == "" then e.kind else e.summary
    payloadSize := payload }

/-- The row `INSERT INTO events` writes, under the next `seq`. -/
def DB.append (db : DB) (e : Event) : DB :=
  { db with
    events := db.events ++ [{ e with seq := db.nextSeq }]
    nextSeq := db.nextSeq + 1
    ascending := by
      refine List.pairwise_append.mpr ⟨db.ascending, by simp, ?_⟩
      intro a ha b hb
      rw [List.mem_singleton.mp hb]
      exact db.below a ha
    below := by
      intro a ha
      rcases List.mem_append.mp ha with h | h
      · exact Nat.lt_succ_of_lt (db.below a h)
      · rw [List.mem_singleton.mp h]; exact Nat.lt_succ_self _
    positive := by
      intro a ha
      rcases List.mem_append.mp ha with h | h
      · exact db.positive a h
      · rw [List.mem_singleton.mp h]; exact db.nextSeq_pos
    nextSeq_pos := Nat.succ_pos _ }

/-- `InsertEvent`: validate, fill in the defaults, commit one row. -/
def DB.insertEvent (db : DB) (uuid now : String) (payload : Nat) (e : Event) :
    Except Invalid (DB × Event) := do
  validate e
  let saved := { withDefaults uuid now payload e with seq := db.nextSeq }
  pure (db.append (withDefaults uuid now payload e), saved)

/-- Retention and the operator's deletions: the events of some `seq`s are gone. -/
def DB.delete (db : DB) (gone : List Nat) : DB :=
  { db with
    events := db.events.filter fun e => !gone.contains e.seq
    ascending := db.ascending.filter _
    below := fun e he => db.below e ((List.mem_filter.mp he).1)
    positive := fun e he => db.positive e ((List.mem_filter.mp he).1) }

/-- `INSERT OR IGNORE` of some rows. -/
def insertRows (outbox rows : List (String × String)) : List (String × String) :=
  rows.foldl (fun ob r => if ob.contains r then ob else ob ++ [r]) outbox

/-- `EnqueueDeliveries`: one group, one transaction, no watermark. -/
def DB.enqueueDeliveries (db : DB) (g : RoutedGroup) : DB :=
  { db with outbox := insertRows db.outbox g.rows }

/-- `EnqueueRouted`: many groups and the watermark, never backwards, in one transaction. -/
def DB.enqueueRouted (db : DB) (groups : List RoutedGroup) (watermark : Nat) : DB :=
  { db with
    outbox := insertRows db.outbox (groups.flatMap RoutedGroup.rows)
    routedThrough := if db.routedThrough < watermark then watermark else db.routedThrough }

/-- `EventsAfter`: journalled events above `seq`, oldest first. -/
def DB.eventsAfter (db : DB) (seq limit : Nat) : List Event :=
  (db.events.filter fun e => seq < e.seq).take limit

/-- The newest journalled `seq`, 0 for an empty journal. -/
def DB.newest (db : DB) : Nat := (db.events.getLast?.map Event.seq).getD 0

/-- `RoutedThrough`: a watermark above the newest event is a swapped database, and is lowered. -/
def DB.clampWatermark (db : DB) : DB :=
  if db.newest < db.routedThrough then { db with routedThrough := db.newest } else db

/-! ## The router's memory -/

/-- Where the router goroutine stands inside `flush`. -/
inductive Phase where
  | idle
  /-- The loop over the batch: what is left of it, and what was routed so far. -/
  | routing (pending routed : List Event) (groups : List RoutedGroup)
  /-- `markIfSettled` has answered; `enqueueRouted` is running. -/
  | writing (routed : List Event) (groups : List RoutedGroup) (mark : Nat)
  /-- The write is committed; `settle` is next. -/
  | settling (seqs : List Nat)
deriving DecidableEq, Repr

structure EventRouter where
  queue : List Event
  deferred : List Event
  batch : List Event
  inflight : List Nat
  highest : Nat
  confirmed : Nat
  phase : Phase
deriving DecidableEq, Repr

def newEventRouter : EventRouter where
  queue := []
  deferred := []
  batch := []
  inflight := []
  highest := 0
  confirmed := 0
  phase := .idle

/-- The first half of `accept`: the section under `mu`. -/
def EventRouter.register (r : EventRouter) (seq : Nat) : EventRouter :=
  { r with
    highest := if r.highest < seq then seq else r.highest
    inflight := if r.inflight.contains seq then r.inflight else seq :: r.inflight }

/-- The lowest of the seqs in flight, 0 when there is none. -/
def lowest : List Nat → Nat
  | [] => 0
  | s :: rest => if lowest rest == 0 || s < lowest rest then s else lowest rest

/-- The mark an in-flight set allows: just below its lowest seq, or everything accepted. -/
def markBelow (highest : Nat) (inflight : List Nat) : Nat :=
  if 0 < lowest inflight then lowest inflight - 1 else highest

/-- `inflight` without some seqs. -/
def without (inflight seqs : List Nat) : List Nat :=
  inflight.filter fun s => !seqs.contains s

/-- `markIfSettled`: the watermark that would be safe if `seqs` were settled. -/
def EventRouter.markIfSettled (r : EventRouter) (seqs : List Nat) : Nat :=
  let mark := markBelow r.highest (without r.inflight seqs)
  if mark < r.confirmed then r.confirmed else mark

/-- `settle`: `seqs` are no longer owed. -/
def EventRouter.settle (r : EventRouter) (seqs : List Nat) : EventRouter :=
  let inflight := without r.inflight seqs
  let mark := markBelow r.highest inflight
  { r with inflight, confirmed := if r.confirmed < mark then mark else r.confirmed }

/-- `defer1`: held for a later attempt, unless the list is full. -/
def EventRouter.defer1 (r : EventRouter) (e : Event) : EventRouter :=
  if routeQueueDepth ≤ r.deferred.length then r else { r with deferred := r.deferred ++ [e] }

/-- `takeDeferred` once the retry time has come: fill the batch up. -/
def EventRouter.takeDeferred (r : EventRouter) : EventRouter :=
  let room := routeBatchSize - r.batch.length
  { r with batch := r.batch ++ r.deferred.take room, deferred := r.deferred.drop room }

/-! ## Replay -/

/-- What the database answers while a replay runs, call by call. -/
structure Answers where
  /-- `RoutedThrough` could be read. -/
  mark : Bool
  /-- `EventsAfter` from this seq could be read. -/
  eventsAfter : Nat → Bool
  /-- The rules and destinations could be read for the event of this seq. -/
  rules : Nat → Bool
  /-- The `EnqueueRouted` that moves the watermark to this seq committed. -/
  enqueue : Nat → Bool

/-- A database that answers everything. -/
def Answers.all : Answers := ⟨true, fun _ => true, fun _ => true, fun _ => true⟩

/-- How a replay ended. -/
inductive ReplayEnd where
  | done
  | markUnread
  | eventsUnread
  /-- Stopped at the event of this seq, which could not be routed. -/
  | stoppedAt (seq : Nat)
  | notWritten
  | outOfFuel
deriving DecidableEq, Repr

/-- The loop of `replayUnrouted`. -/
def replayLoop (groupsFor : Event → List RoutedGroup) (ans : Answers) :
    Nat → DB → Nat → DB × ReplayEnd
  | 0, db, _ => (db, .outOfFuel)
  | fuel + 1, db, mark =>
      if !ans.eventsAfter mark then (db, .eventsUnread) else
      let pending := db.eventsAfter mark routeBatchSize
      match pending.getLast? with
      | none => (db, .done)
      | some last =>
          match pending.find? fun e => !ans.rules e.seq with
          | some e => (db, .stoppedAt e.seq)
          | none =>
              if !ans.enqueue last.seq then (db, .notWritten) else
              replayLoop groupsFor ans fuel
                (db.enqueueRouted (pending.flatMap groupsFor) last.seq) last.seq

/-- `replayUnrouted`: route everything journalled above the watermark. -/
def replayUnrouted (groupsFor : Event → List RoutedGroup) (ans : Answers) (db : DB) :
    DB × ReplayEnd :=
  if !ans.mark then (db, .markUnread) else
  let db := db.clampWatermark
  replayLoop groupsFor ans (db.events.length + 1) db db.routedThrough

/-! ## The whole -/

/-- The database, the router and every producer between two of its steps. -/
structure World where
  db : DB
  router : EventRouter
  /-- `InsertEvent` has returned; `accept` has not begun. -/
  committed : List Event
  /-- Registered by `accept`; not yet on the channel. -/
  offered : List Event
  /-- The channel had no room; `settle(nil, seq)` has not run yet. -/
  refused : List Event
  /-- `accept` returned false; `routeEvent` is running. -/
  inline : List Event
  /-- Events nobody in this process carries: journalled before it started, or
  given up by an inline routing that returned. -/
  stranded : List Event
  /-- History: every event `accept` returned false for. -/
  refusals : List Event

/-- A process that has just started on `db`. -/
def World.start (db : DB) : World where
  db := db
  router := newEventRouter
  committed := []
  offered := []
  refused := []
  inline := []
  stranded := db.events
  refusals := []

/-- The steps. An event is named by its seq once it has one. -/
inductive Act where
  /-- `recordEvent` as far as the commit of `InsertEvent`. -/
  | insert (uuid now : String) (payload : Nat) (e : Event)
  /-- `accept`, the section under `mu`. -/
  | register (seq : Nat)
  /-- `accept`, the channel has room. -/
  | send (seq : Nat)
  /-- `accept`, the channel is full. -/
  | refuse (seq : Nat)
  /-- `accept`, `settle(nil, seq)` and the return of false. -/
  | settleRefused (seq : Nat)
  /-- `routeEvent`: one `EnqueueDeliveries` commits. -/
  | inlineWrite (seq : Nat) (g : RoutedGroup)
  /-- `routeEvent` returns, having written all, some or nothing. -/
  | inlineReturn (seq : Nat)
  /-- The loop receives from the channel. -/
  | take
  | takeDeferred
  /-- `flush` takes the batch. -/
  | flush
  /-- `routedGroupsFor` answers for the next event of the batch. -/
  | routeOk
  /-- `routedGroupsFor` fails for it. -/
  | routeFail
  | markIfSettled
  /-- `enqueueRouted` commits. -/
  | writeOk
  /-- `enqueueRouted` fails. -/
  | writeFail
  | settle
  /-- Retention or the operator removes events from the journal. -/
  | delete (gone : List Nat)
  /-- The process ends here and the next one starts, with its replay. -/
  | restart (ans : Answers)

/-- The event of this seq in a list. -/
def withSeq (es : List Event) (seq : Nat) : Option Event := es.find? fun e => e.seq == seq

/-- A list without the event of this seq. -/
def dropSeq (es : List Event) (seq : Nat) : List Event := es.filter fun e => e.seq != seq

/-- One step. -/
def step (groupsFor : Event → List RoutedGroup) (w : World) : Act → Option World
  | .insert uuid now payload e =>
      match w.db.insertEvent uuid now payload e with
      | .ok (db, saved) => some { w with db, committed := w.committed ++ [saved] }
      | .error _ => none
  | .register seq => do
      let e ← withSeq w.committed seq
      some { w with
        router := w.router.register seq
        committed := dropSeq w.committed seq
        offered := w.offered ++ [e] }
  | .send seq => do
      let e ← withSeq w.offered seq
      if w.router.queue.length < routeQueueDepth then
        some { w with
          router := { w.router with queue := w.router.queue ++ [e] }
          offered := dropSeq w.offered seq }
      else none
  | .refuse seq => do
      let e ← withSeq w.offered seq
      if w.router.queue.length < routeQueueDepth then none else
        some { w with offered := dropSeq w.offered seq, refused := w.refused ++ [e] }
  | .settleRefused seq => do
      let e ← withSeq w.refused seq
      some { w with
        router := w.router.settle [seq]
        refused := dropSeq w.refused seq
        inline := w.inline ++ [e]
        refusals := w.refusals ++ [e] }
  | .inlineWrite seq g => do
      let e ← withSeq w.inline seq
      if (groupsFor e).contains g then some { w with db := w.db.enqueueDeliveries g } else none
  | .inlineReturn seq => do
      let e ← withSeq w.inline seq
      some { w with inline := dropSeq w.inline seq, stranded := w.stranded ++ [e] }
  | .take =>
      match w.router.phase, w.router.queue with
      | .idle, e :: queue =>
          if w.router.batch.length < routeBatchSize then
            some { w with router := { w.router with queue, batch := w.router.batch ++ [e] } }
          else none
      | _, _ => none
  | .takeDeferred =>
      match w.router.phase with
      | .idle => some { w with router := w.router.takeDeferred }
      | _ => none
  | .flush =>
      match w.router.phase with
      | .idle =>
          if w.router.batch.isEmpty then none else
          some { w with
            router := { w.router with batch := [], phase := .routing w.router.batch [] [] } }
      | _ => none
  | .routeOk =>
      match w.router.phase with
      | .routing (e :: pending) routed groups =>
          some { w with
            router := { w.router with
              phase := .routing pending (routed ++ [e]) (groups ++ groupsFor e) } }
      | _ => none
  | .routeFail =>
      match w.router.phase with
      | .routing (e :: pending) routed groups =>
          some { w with
            router := { w.router.defer1 e with phase := .routing pending routed groups } }
      | _ => none
  | .markIfSettled =>
      match w.router.phase with
      | .routing [] routed groups =>
          some { w with
            router := { w.router with
              phase := .writing routed groups (w.router.markIfSettled (routed.map Event.seq)) } }
      | _ => none
  | .writeOk =>
      match w.router.phase with
      | .writing routed groups mark =>
          some { w with
            db := w.db.enqueueRouted groups mark
            router := { w.router with phase := .settling (routed.map Event.seq) } }
      | _ => none
  | .writeFail =>
      match w.router.phase with
      | .writing routed _ _ =>
          some { w with
            router := { routed.foldl EventRouter.defer1 w.router with phase := .idle } }
      | _ => none
  | .settle =>
      match w.router.phase with
      | .settling seqs =>
          some { w with router := { w.router.settle seqs with phase := .idle } }
      | _ => none
  | .delete gone => some { w with db := w.db.delete gone }
  | .restart ans =>
      some { World.start (replayUnrouted groupsFor ans w.db).1 with refusals := w.refusals }

end SnmpLens.Router
