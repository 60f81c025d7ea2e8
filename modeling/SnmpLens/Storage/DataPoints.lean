import SnmpLens.Lib.Machine
import SnmpLens.Events.Event

/-!
# Buffered data points

The sample buffer of `pkg/storage/storage.go`: `QueueDataPoints` appends to it,
the flush goroutine takes all of it, writes it in one transaction and puts it
back when the transaction fails. Sessions come and go meanwhile — `DeleteSession`
and `Cleanup` remove them, and the foreign key on `data_points` takes their rows
with them.

A flush is three critical sections (`take`, `write`, `restore`), and everything
else may run between any two of them. Whether the database answers a write is in
the label; whether it *accepts* it is not: that is the foreign key, computed.
-/

namespace SnmpLens.Storage

open Events

/-- The cap on the unwritten sample buffer. -/
def maxBufferedPoints : Nat := 100000

structure DataPoint where
  sessionID : String
  target : String := ""
  timestamp : String := ""
  value : Option Float64 := none
  delta : Option Float64 := none
  rate : Option Float64 := none
  responseTimeMs : Int := 0
  error : String := ""
  snmpType : String := ""
  oid : String := ""
deriving DecidableEq, Repr

/-- A row of `sessions`, as far as `Cleanup` and the foreign key read it. -/
structure Session where
  id : String
  active : Bool
deriving DecidableEq, Repr

/--
The tables, and the history of every row ever inserted in `data_points`.

`referenced` is the foreign key, which every connection enforces.
-/
structure DB where
  sessions : List Session
  points : List DataPoint
  inserted : List DataPoint
  referenced : ∀ p ∈ points, ∃ s ∈ sessions, s.id = p.sessionID

/-- The database `Init` creates. -/
def DB.empty : DB := ⟨[], [], [], by simp⟩

/-- There is a session of this id. -/
def DB.hasSession (db : DB) (id : String) : Bool := db.sessions.any fun s => s.id == id

theorem hasSession_iff {db : DB} {id : String} :
    db.hasSession id = true ↔ ∃ s ∈ db.sessions, s.id = id := by
  simp [DB.hasSession]

/-- `CreateSession`, with the id it generates: `id` is the primary key. -/
def DB.createSession (db : DB) (id : String) : Option DB :=
  if db.hasSession id then none else
    some { db with
      sessions := db.sessions ++ [⟨id, true⟩]
      referenced := by
        intro p hp
        obtain ⟨s, hs, hid⟩ := db.referenced p hp
        exact ⟨s, List.mem_append_left _ hs, hid⟩ }

/-- `UpdateSession`, as far as `active` goes. -/
def DB.updateSession (db : DB) (id : String) (active : Bool) : DB :=
  { db with
    sessions := db.sessions.map fun s => if s.id == id then { s with active } else s
    referenced := by
      intro p hp
      obtain ⟨s, hs, hid⟩ := db.referenced p hp
      refine ⟨_, List.mem_map_of_mem hs, ?_⟩
      split <;> exact hid }

/-- `DELETE FROM sessions WHERE …`, with its `ON DELETE CASCADE`. -/
def DB.deleteSessions (db : DB) (gone : Session → Bool) : DB :=
  { db with
    sessions := db.sessions.filter fun s => !gone s
    points := db.points.filter fun p => db.sessions.any fun s => s.id == p.sessionID && !gone s
    referenced := by
      intro p hp
      obtain ⟨_, hany⟩ := List.mem_filter.mp hp
      obtain ⟨s, hs, hkeep⟩ := List.any_eq_true.mp hany
      simp only [Bool.and_eq_true, beq_iff_eq] at hkeep
      exact ⟨s, List.mem_filter.mpr ⟨hs, hkeep.2⟩, hkeep.1⟩ }

def DB.deleteSession (db : DB) (id : String) : DB := db.deleteSessions fun s => s.id == id

/-- The first statement of `Cleanup`: samples older than the cutoff. -/
def DB.cleanupPoints (db : DB) (cutoff : String) : DB :=
  { db with
    points := db.points.filter fun p => !(p.timestamp < cutoff)
    referenced := fun p hp => db.referenced p (List.mem_filter.mp hp).1 }

def DB.deleteEmptyInactiveSessions (db : DB) : DB :=
  db.deleteSessions fun s => !s.active && !db.points.any fun p => p.sessionID == s.id

/-- One `INSERT INTO data_points`: refused when the session it names is gone. -/
def DB.insertPoint (db : DB) (p : DataPoint) : Option DB :=
  if h : db.hasSession p.sessionID = true then
    some { db with
      points := db.points ++ [p]
      inserted := db.inserted ++ [p]
      referenced := by
        intro q hq
        rcases List.mem_append.mp hq with hq | hq
        · exact db.referenced q hq
        · rw [List.mem_singleton.mp hq]
          exact hasSession_iff.mp h }
  else none

/-- `writePoints`: all of them in one transaction, or none. -/
def DB.writePoints (db : DB) : List DataPoint → Option DB
  | [] => some db
  | p :: rest => do
      let db ← db.insertPoint p
      db.writePoints rest

/-- `restoreBatch`: the unwritten points in front of the newer ones, and the oldest of them
all dropped beyond the cap. The dropped ones come first. -/
def restoreBatch (points batch : List DataPoint) : List DataPoint × List DataPoint :=
  let held := points ++ batch
  let excess := held.length - maxBufferedPoints
  (held.take excess, held.drop excess)

/-- Where `flushBatch` stands. -/
inductive Flush where
  | idle
  /-- The buffer has been taken; the transaction is running. -/
  | writing (points : List DataPoint)
  /-- It failed; `restoreBatch` is next. -/
  | restoring (points : List DataPoint)
deriving DecidableEq, Repr

/-- The points a flush holds. -/
def Flush.points : Flush → List DataPoint
  | .idle => []
  | .writing points => points
  | .restoring points => points

/-- What became of a queued point. -/
inductive Fate where
  | written
  /-- Dropped, as one of the oldest of this many buffered. -/
  | dropped (held : Nat)
deriving DecidableEq, Repr

/-- The storage, and the history of what was queued. -/
structure World where
  db : DB
  batch : List DataPoint
  flush : Flush
  /-- History: every point ever queued. -/
  queued : List DataPoint
  /-- History: the points that left the buffer for good, in that order. -/
  settled : List (DataPoint × Fate)
  /-- History: the points that an answered flush did not write although their session
  existed then. -/
  missed : List DataPoint

/-- A storage that has just been opened. -/
def World.start (db : DB) : World := ⟨{ db with inserted := [] }, [], .idle, [], [], []⟩

/-- The steps. -/
inductive Act where
  | queueDataPoints (points : List DataPoint)
  /-- `flushBatch` takes the buffer. -/
  | take
  /-- `writePoints`; the database answers, or it does not. -/
  | write (available : Bool)
  | restore
  | createSession (id : String)
  | updateSession (id : String) (active : Bool)
  | deleteSession (id : String)
  | cleanupPoints (cutoff : String)
  | cleanupSessions
deriving DecidableEq, Repr

/-- One step. -/
def step (w : World) : Act → Option World
  | .queueDataPoints points =>
      some { w with batch := w.batch ++ points, queued := w.queued ++ points }
  | .take =>
      match w.flush with
      | .idle =>
          if w.batch.isEmpty then none else
            some { w with batch := [], flush := .writing w.batch }
      | _ => none
  | .write available =>
      match w.flush with
      | .writing points =>
          if !available then some { w with flush := .restoring points } else
          match w.db.writePoints points with
          | some db =>
              some { w with
                db, flush := .idle
                settled := w.settled ++ points.map fun p => (p, .written) }
          | none =>
              some { w with
                flush := .restoring points
                missed := w.missed ++ points.filter fun p => w.db.hasSession p.sessionID }
      | _ => none
  | .restore =>
      match w.flush with
      | .restoring points =>
          let (dropped, kept) := restoreBatch points w.batch
          some { w with
            batch := kept, flush := .idle
            settled := w.settled ++
              dropped.map fun p => (p, .dropped (points ++ w.batch).length) }
      | _ => none
  | .createSession id => (w.db.createSession id).map fun db => { w with db }
  | .updateSession id active => some { w with db := w.db.updateSession id active }
  | .deleteSession id => some { w with db := w.db.deleteSession id }
  | .cleanupPoints cutoff => some { w with db := w.db.cleanupPoints cutoff }
  | .cleanupSessions => some { w with db := w.db.deleteEmptyInactiveSessions }

end SnmpLens.Storage
