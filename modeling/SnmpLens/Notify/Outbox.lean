import SnmpLens.Router.Model
import SnmpLens.Notify.Errors

/-!
# The outbox

`notify_outbox` and the statements on it, from `pkg/storage/notify_store.go`:
enqueue, the query for what is due, the two outcomes, the operator's retry and
the two trims. A row is one delivery of one event to one sink. Its `id` is
AUTOINCREMENT: insertion order, never handed out twice, whatever is deleted.

Every time is written as RFC 3339 in UTC, so the clock is in whole seconds and
two rows written in one second carry the same time.
-/

namespace SnmpLens.Notify

open Events Router

/-- How long a delivered row is kept, in seconds. -/
def outboxRetention : Nat := 14 * 24 * 60 * 60

/-- How many dead letters are kept. -/
def maxDeadLetters : Nat := 5000

/-- How many rows one drain takes. -/
def drainLimit : Nat := 20

/-- The `state` column. -/
inductive State where
  | pending
  | sent
  | dead
deriving DecidableEq, Repr

/-- A row of `notify_outbox`. -/
structure Delivery where
  id : Nat
  eventID : String
  sinkID : String
  event : Event
  subject : String
  body : String
  attempts : Nat
  nextTry : Nat
  lastError : Option String
  state : State
  createdAt : Nat
deriving DecidableEq, Repr

/-- The table, in insertion order. -/
structure Outbox where
  rows : List Delivery
  nextID : Nat
  ascending : rows.Pairwise fun a b => a.id < b.id
  below : ∀ r ∈ rows, r.id < nextID

def Outbox.empty : Outbox := ⟨[], 1, .nil, by simp⟩

namespace Outbox

/-- A row for this event and sink exists: `UNIQUE(event_id, sink_id)`. -/
def has (ob : Outbox) (eventID sinkID : String) : Bool :=
  ob.rows.any fun r => r.eventID == eventID && r.sinkID == sinkID

/-- A row as it is inserted. -/
def fresh (ob : Outbox) (now : Nat) (g : RoutedGroup) (sinkID : String) : Delivery where
  id := ob.nextID
  eventID := g.event.id
  sinkID := sinkID
  event := g.event
  subject := g.subject
  body := g.body
  attempts := 0
  nextTry := now
  lastError := none
  state := .pending
  createdAt := now

/-- The row `fresh` describes, appended. -/
def append (ob : Outbox) (now : Nat) (g : RoutedGroup) (sinkID : String) : Outbox where
  rows := ob.rows ++ [ob.fresh now g sinkID]
  nextID := ob.nextID + 1
  ascending := by
    refine List.pairwise_append.mpr ⟨ob.ascending, List.pairwise_singleton _ _, ?_⟩
    intro a ha b hb
    rw [List.mem_singleton.mp hb]
    exact ob.below a ha
  below := by
    intro r hr
    rcases List.mem_append.mp hr with h | h
    · exact Nat.lt_succ_of_lt (ob.below r h)
    · rw [List.mem_singleton.mp h]
      exact Nat.lt_succ_self _

/-- `INSERT OR IGNORE` of one row. -/
def insertIgnore (ob : Outbox) (now : Nat) (g : RoutedGroup) (sinkID : String) : Outbox :=
  if ob.has g.event.id sinkID then ob else ob.append now g sinkID

/-- The rows of `EnqueueDeliveries`, which is one group. -/
def enqueueDeliveries (ob : Outbox) (now : Nat) (g : RoutedGroup) : Outbox :=
  g.sinkIDs.foldl (fun ob sinkID => ob.insertIgnore now g sinkID) ob

/-- The rows of `EnqueueRouted`, which is many. -/
def enqueueRouted (ob : Outbox) (now : Nat) (groups : List RoutedGroup) : Outbox :=
  groups.foldl (fun ob g => ob.enqueueDeliveries now g) ob

/-- What an `UPDATE … WHERE id = ?` makes of one row. -/
def updated (id : Nat) (f : Delivery → Delivery) (r : Delivery) : Delivery :=
  if r.id == id then f r else r

theorem id_updated {id : Nat} {f : Delivery → Delivery} (hf : ∀ r, (f r).id = r.id)
    (r : Delivery) : (updated id f r).id = r.id := by
  unfold updated
  split
  · exact hf r
  · rfl

/-- `UPDATE notify_outbox SET … WHERE id = ?`. -/
def update (ob : Outbox) (id : Nat) (f : Delivery → Delivery) (hf : ∀ r, (f r).id = r.id) :
    Outbox where
  rows := ob.rows.map (updated id f)
  nextID := ob.nextID
  ascending := by
    refine List.pairwise_map.mpr (ob.ascending.imp ?_)
    intro a b hab
    rw [id_updated hf, id_updated hf]
    exact hab
  below := by
    intro r hr
    obtain ⟨x, hx, rfl⟩ := List.mem_map.mp hr
    rw [id_updated hf]
    exact ob.below x hx

/-- A row as `MarkSent` leaves it. -/
def sentRow (r : Delivery) : Delivery :=
  { r with state := .sent, lastError := none, attempts := r.attempts + 1 }

/-- A row as `MarkFailed` leaves it. -/
def failedRow (errMsg : String) (nextTry : Nat) (dead : Bool) (r : Delivery) : Delivery :=
  { r with
    attempts := r.attempts + 1, lastError := some errMsg, nextTry
    state := if dead then .dead else .pending }

/-- A row as `RetryDelivery` leaves it. -/
def retriedRow (now : Nat) (r : Delivery) : Delivery :=
  { r with state := .pending, nextTry := now, lastError := none, attempts := 0 }

def markSent (ob : Outbox) (id : Nat) : Outbox := ob.update id sentRow fun _ => rfl

def markFailed (ob : Outbox) (id : Nat) (errMsg : String) (nextTry : Nat) (dead : Bool) :
    Outbox :=
  ob.update id (failedRow errMsg nextTry dead) fun _ => rfl

def retryDelivery (ob : Outbox) (now : Nat) (id : Nat) : Outbox :=
  ob.update id (retriedRow now) fun _ => rfl

/-- `DELETE FROM notify_outbox WHERE …`. -/
def delete (ob : Outbox) (gone : Delivery → Bool) : Outbox where
  rows := ob.rows.filter fun r => !gone r
  nextID := ob.nextID
  ascending := ob.ascending.filter _
  below := fun r hr => ob.below r (List.mem_filter.mp hr).1

def trimOutbox (ob : Outbox) (now : Nat) : Outbox :=
  ob.delete fun r => r.state == .sent && r.createdAt < now - outboxRetention

/-- The dead rows. -/
def deadRows (ob : Outbox) : List Delivery := ob.rows.filter fun r => r.state == .dead

/-- `TrimDeadLetters`: the newest dead row that is not among the newest `keep` bounds
what goes. -/
def trimDeadLetters (ob : Outbox) (keep : Nat) : Outbox :=
  match ob.deadRows.reverse[keep]? with
  | none => ob
  | some bound => ob.delete fun r => r.state == .dead && r.id ≤ bound.id

/-- The rows the due query selects from. -/
def due (ob : Outbox) (now : Nat) : List Delivery :=
  ob.rows.filter fun r => r.state == .pending && r.nextTry ≤ now

/--
A result of `DueDeliveries`: due rows, each once, earliest retry first, as many as
the limit allows and none later than one left out. Rows whose retry times are equal
come in whatever order the query gives.
-/
def isDueBatch (ob : Outbox) (now : Nat) (batch : List Delivery) : Bool :=
  batch.all (fun r => (ob.due now).contains r)
    && decide ((batch.map Delivery.id).Nodup)
    && decide (batch.Pairwise fun a b => a.nextTry ≤ b.nextTry)
    && batch.length == min drainLimit (ob.due now).length
    && (ob.due now).all fun r => batch.contains r || batch.all fun b => b.nextTry ≤ r.nextTry

end Outbox

end SnmpLens.Notify
