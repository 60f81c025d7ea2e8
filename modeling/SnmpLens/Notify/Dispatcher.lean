import SnmpLens.Lib.Machine
import SnmpLens.Notify.Outbox

/-!
# The dispatcher

`pkg/notify/dispatcher.go` over the outbox. A drain reads what is due and hands
it to one worker per destination; a worker sends its deliveries one after the
other and records each outcome before the next. One drain runs at a time
(`TryLock`), so at any moment there is one set of workers.

Every step is one critical section: the query, the start of a send, the outcome
with its `UPDATE`, the operator's retry, an enqueue, a trim. A worker carries the
row as the query returned it (`Queued`), which is what its arithmetic on attempts
uses, while the row itself may change under it. How a send ends is in the label,
and so is whether its outcome was recorded: the write may fail, and the process
may end with a send on the wire.
-/

namespace SnmpLens.Notify

open Events Router

/-- One delivery waiting to be sent, as the due query returned it (`notify.Queued`). -/
structure Queued where
  id : Nat
  sinkID : String
  subject : String
  body : String
  attempts : Nat
  event : Event
deriving DecidableEq, Repr

/-- The columns of a row that `DueDeliveries` hands on. -/
def Delivery.queued (d : Delivery) : Queued where
  id := d.id
  sinkID := d.sinkID
  subject := d.subject
  body := d.body
  attempts := d.attempts
  event := d.event

/-- The goroutine of one destination. -/
structure Worker where
  sinkID : String
  /-- What it has left, the delivery being sent in front. -/
  queue : List Queued
  sending : Bool
deriving DecidableEq, Repr

/-- How an attempt ended. -/
inductive Outcome where
  | sent
  /-- `Send` returned an error. -/
  | failed (err : GoErr)
  /-- `Resolve` found no destination. -/
  | unresolved
deriving DecidableEq, Repr

/-- Whether the attempt was the last one. -/
def Outcome.dead (attempts : Nat) : Outcome → Bool
  | .sent => false
  | .failed err => permanent err || maxAttempts ≤ attempts + 1
  | .unresolved => true

/-- What `last_error` gets to say. -/
def Outcome.errMsg (sinkID : String) : Outcome → String
  | .sent => ""
  | .failed err => err.text
  | .unresolved => "sink " ++ sinkID ++ " no longer exists or is disabled"

/-- The dispatcher, its table and its clock. -/
structure World where
  clock : Nat
  outbox : Outbox
  /-- Writes to the outbox since the process started (`outboxWrites`). -/
  writes : Nat
  /-- Trims that a write asked for and that have not run yet. -/
  trimsOwed : Nat
  /-- The drain in progress; empty when there is none. -/
  workers : List Worker
  /-- History: attempts at a row since it last entered `pending` from another state. -/
  tries : Nat → Nat
  /-- History: attempts at a row since it was queued or last retried. -/
  sinceRetry : Nat → Nat
  /-- History: rows that reached `sent`. -/
  everSent : List Nat
  /-- History: rows a send was started for after they had reached `sent`. -/
  resent : List Nat
  /-- History: the sends that succeeded, in order. -/
  delivered : List Queued
  /-- History: the highest seq among the events of the rows ever inserted. -/
  lastSeq : Nat

/-- A process that has just started on an outbox. -/
def World.start (outbox : Outbox) (clock : Nat) : World where
  clock := clock
  outbox := outbox
  writes := 0
  trimsOwed := 0
  workers := []
  tries := fun _ => 0
  sinceRetry := fun _ => 0
  everSent := []
  resent := []
  delivered := []
  lastSeq := 0

/-- `history` with one more attempt at `id`. -/
def bump (history : Nat → Nat) (id : Nat) : Nat → Nat :=
  fun i => if i == id then history i + 1 else history i

/-- `history` starting again for `id`. -/
def reset (history : Nat → Nat) (id : Nat) : Nat → Nat :=
  fun i => if i == id then 0 else history i

/-- The batch split by destination, one worker each. -/
def bySink (batch : List Queued) : List Worker :=
  (batch.map Queued.sinkID).dedup.map fun s =>
    { sinkID := s, queue := batch.filter fun q => q.sinkID == s, sending := false }

/-- The worker of a destination. -/
def World.worker (w : World) (sinkID : String) : Option Worker :=
  w.workers.find? fun k => k.sinkID == sinkID

/-- The workers with one of them changed. -/
def World.setWorker (w : World) (k : Worker) : List Worker :=
  w.workers.map fun x => if x.sinkID == k.sinkID then k else x

def World.noteOutboxWrite (w : World) : World :=
  { w with
    writes := w.writes + 1
    trimsOwed := if (w.writes + 1) % 64 == 0 then w.trimsOwed + 1 else w.trimsOwed }

/-- The row of this id. -/
def World.row (w : World) (id : Nat) : Option Delivery :=
  w.outbox.rows.find? fun r => r.id == id

/-- The row of an attempt, as its outcome leaves it. -/
def World.outcomeRow (w : World) (q : Queued) : Outcome → Delivery → Delivery
  | .sent => Outbox.sentRow
  | outcome =>
      Outbox.failedRow (outcome.errMsg q.sinkID) (w.clock + backoff (q.attempts + 1))
        (outcome.dead q.attempts)

/-- The outcome of an attempt, written: `MarkSent` or `MarkFailed`. -/
def World.record (w : World) (q : Queued) (outcome : Outcome) : World :=
  match outcome with
  | .sent =>
      { w with
        outbox := w.outbox.markSent q.id
        everSent := w.everSent ++ ((w.row q.id).map Delivery.id).toList }
  | outcome =>
      { w with
        outbox := w.outbox.markFailed q.id (outcome.errMsg q.sinkID)
          (w.clock + backoff (q.attempts + 1)) (outcome.dead q.attempts) }

/-- The rows an enqueue inserts. -/
def World.freshRows (w : World) (groups : List RoutedGroup) : List Delivery :=
  (w.outbox.enqueueRouted w.clock groups).rows.drop w.outbox.rows.length

/-- The groups' rows are in the table. -/
def World.enqueue (w : World) (groups : List RoutedGroup) : World :=
  { w with
    outbox := w.outbox.enqueueRouted w.clock groups
    lastSeq := (w.freshRows groups).foldl (fun m r => max m r.event.seq) w.lastSeq }

/-- `deliver` begins: a send of `q` is on the wire. -/
def World.startSend (w : World) (k : Worker) (q : Queued) : World :=
  { w with
    workers := w.setWorker { k with sending := true }
    tries := bump w.tries q.id
    sinceRetry := bump w.sinceRetry q.id
    resent := if w.everSent.contains q.id then w.resent ++ [q.id] else w.resent }

/-- `deliver` ends: the outcome is recorded if the `UPDATE` commits, and `k` moves on. -/
def World.endSend (w : World) (k : Worker) (q : Queued) (rest : List Queued)
    (outcome : Outcome) (recorded : Bool) : World :=
  { (if recorded then w.record q outcome else w).noteOutboxWrite with
    workers := w.setWorker { k with queue := rest, sending := false }
    delivered := if outcome == .sent then w.delivered ++ [q] else w.delivered }

/-- The steps. A worker is named by its destination. -/
inductive Act where
  /-- Time passes. -/
  | tick (seconds : Nat)
  /-- `EnqueueDeliveries` or the rows of `EnqueueRouted`. -/
  | enqueue (groups : List RoutedGroup)
  /-- `Drain` gets the lock, and the query answers. -/
  | drain (batch : List Delivery)
  /-- A worker starts on the next of its deliveries. -/
  | start (sinkID : String)
  /-- The attempt ends; the `UPDATE` commits, or it does not. -/
  | finish (sinkID : String) (outcome : Outcome) (recorded : Bool)
  /-- Shutdown has begun: a worker starts nothing new. -/
  | abandon (sinkID : String)
  /-- Every worker is done, and the lock is free again. -/
  | release
  | retryDelivery (id : Nat)
  /-- The trims a write asked for; each of the two statements commits, or it does not. -/
  | trim (outbox dead : Bool)
  /-- The process ends here, whatever is on the wire, and the next one starts. -/
  | restart
deriving DecidableEq

/-- One step. -/
def step (w : World) : Act → Option World
  | .tick seconds => some { w with clock := w.clock + seconds }
  | .enqueue groups => some (w.enqueue groups)
  | .drain batch =>
      if w.workers.isEmpty && w.outbox.isDueBatch w.clock batch then
        some { w with workers := bySink (batch.map Delivery.queued) }
      else none
  | .start sinkID => do
      let k ← w.worker sinkID
      match k.sending, k.queue with
      | false, q :: _ => some (w.startSend k q)
      | _, _ => none
  | .finish sinkID outcome recorded => do
      let k ← w.worker sinkID
      match k.sending, k.queue with
      | true, q :: rest => some (w.endSend k q rest outcome recorded)
      | _, _ => none
  | .abandon sinkID => do
      let k ← w.worker sinkID
      if k.sending then none else
        some { w with workers := w.setWorker { k with queue := [] } }
  | .release =>
      if w.workers.all fun k => k.queue.isEmpty then some { w with workers := [] } else none
  | .retryDelivery id =>
      some { w with
        outbox := w.outbox.retryDelivery w.clock id
        tries :=
          if w.outbox.rows.any (fun r => r.id == id && r.state != .pending)
          then reset w.tries id else w.tries
        sinceRetry := reset w.sinceRetry id }
  | .trim outbox dead =>
      if w.trimsOwed == 0 then none else
        let ob := if outbox then w.outbox.trimOutbox w.clock else w.outbox
        let ob := if dead then ob.trimDeadLetters maxDeadLetters else ob
        some { w with outbox := ob, trimsOwed := w.trimsOwed - 1 }
  | .restart => some { w with writes := 0, trimsOwed := 0, workers := [] }

end SnmpLens.Notify
