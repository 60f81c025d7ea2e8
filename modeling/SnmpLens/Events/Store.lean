import SnmpLens.Events.Query
import SnmpLens.Lib.Machine

/-!
# The list of events

`frontend/src/stores/eventsStore.js`: `load`, `loadMore` and the handler of `event:new`, over
`EventsQuery` and `InsertEvent`. Go puts an event in the journal and then sends it to the window;
the messages arrive in the order of their `seq`. A call of `EventsQuery` is answered some time after
it was executed, and calls are answered in any order. Every step in between may be one of another
writer of the list.

What is said of the list is said of the last `load`, once it is answered: its filter is what the
operator sees. Nothing is deleted or acknowledged here, and a trim is a deletion.
-/

namespace SnmpLens.EventList

open Events Router Cursor Machine

/-! ## The journal -/

/-- The database, no two of whose events have one id. -/
structure Journal where
  db : DB
  unique : (db.events.map Event.id).Nodup

/-- `InsertEvent`: the journal with the row, and the event as it is sent to the window. -/
def Journal.insertEvent (j : Journal) (uuid now : String) (payload : Nat) (e : Event) :
    Option (Journal × Event) :=
  match validate e with
  | .error _ => none
  | .ok () =>
      -- "UNIQUE constraint failed: events.id"
      if hid : (withDefaults uuid now payload e).id ∈ j.db.events.map Event.id then none
      else some
        ({ db := j.db.append (withDefaults uuid now payload e)
           unique := by
             show ((j.db.events ++ [_]).map Event.id).Nodup
             rw [List.map_append, List.nodup_append]
             refine ⟨j.unique, List.nodup_singleton _, ?_⟩
             rintro a ha b hb rfl
             exact hid (List.mem_singleton.mp hb ▸ ha) },
          { withDefaults uuid now payload e with seq := j.db.nextSeq })

/-! ## The store -/

structure Store where
  items : List Event := []
  total : Nat := 0
  nextCursor : Nat := 0
  loading : Bool := false
  error : Option String := none
  filter : Filter := {}

/-- How many events the live tail may hold. -/
def maxLiveItems : Nat := 2000

/-- `matchesFilter`: the mirror of the SQL filter, for the live tail only. -/
def matchesFilter (e : Event) (f : Filter) : Bool :=
  if !f.categories.isEmpty && !f.categories.contains e.category then false
  else if f.unackedOnly && e.acked then false
  else if f.sessionID != "" && e.sessionID != f.sessionID then false
  else true

/-- The rows of `dedupeById` that are left once some ids have been seen. -/
def dedupeFrom (seen : List String) : List Event → List Event
  | [] => []
  | e :: items =>
      if seen.contains e.id then dedupeFrom seen items
      else e :: dedupeFrom (e.id :: seen) items

/-- One row per event id, first occurrence winning. -/
def dedupeById (items : List Event) : List Event := dedupeFrom [] items

namespace Store

/-- `load`, up to where it awaits the query. -/
def load (s : Store) (filter : Filter) : Store := { s with loading := true, error := none, filter }

def loaded (filter : Filter) (page : Page) : Store where
  items := page.items
  total := page.total
  nextCursor := page.nextCursor
  filter := filter

/-- `loadMore`, after its query. -/
def appended (s : Store) (page : Page) : Store :=
  { s with
    items := dedupeById (s.items ++ page.items)
    total := if page.total = 0 then s.total else page.total
    nextCursor := page.nextCursor
    loading := false }

def failed (s : Store) (error : String) : Store := { s with loading := false, error := some error }

/-- The `seq` of the last row, unless it is 0. -/
def cursorAt (s : Store) (kept : List Event) : Nat :=
  match kept.getLast? with
  | some e => if e.seq = 0 then s.nextCursor else e.seq
  | none => s.nextCursor

/-- The list an event that matches is put on, which is cut where the live tail ends. -/
def prepended (s : Store) (e : Event) : Store :=
  if (e :: s.items).length ≤ maxLiveItems then { s with items := e :: s.items, total := s.total + 1 }
  else { s with
    items := (e :: s.items).take maxLiveItems
    total := s.total + 1
    nextCursor := s.cursorAt ((e :: s.items).take maxLiveItems) }

/-- The handler of `event:new`. -/
def eventNew (s : Store) (e : Event) : Store :=
  if s.nextCursor ≠ 0 ∧ s.items = [] then s
  else if matchesFilter e s.filter = false then s
  else if e.id ∈ s.items.map Event.id then s
  else s.prepended e

end Store

/-! ## The window and the journal -/

/-- A call of `load` or of `loadMore`. -/
structure Call where
  id : Nat
  more : Bool
  filter : Filter
  /-- The `beforeSeq` of the query. -/
  cursor : Nat
  /-- The page the query found, and the newest `seq` there was. -/
  answer : Option (Page × Nat) := none

structure State where
  journal : Journal
  /-- The events that are on their way to the window, in the order they were inserted. -/
  messages : List Event := []
  calls : List Call := []
  nextCall : Nat := 0
  store : Store := {}
  /-- The last `load`, and its filter. -/
  last : Option (Nat × Filter) := none

inductive Act where
  /-- `InsertEvent`, with the id and the time it fills in, and the message it is followed by. -/
  | insert (uuid now : String) (payload : Nat) (e : Event)
  /-- A message arrives. -/
  | message
  | load (filter : Filter)
  | loadMore
  /-- Go executes the query of a call. -/
  | query (id : Nat)
  /-- The answer of a call arrives. -/
  | answer (id : Nat)
  /-- A call is answered with an error. -/
  | fail (id : Nat) (error : String)

namespace State

/-- The rows of the journal, in the order they were inserted. -/
def rows (s : State) : List Event := s.journal.db.events

/-- The call `id` is over. -/
def drop (s : State) (id : Nat) : State :=
  { s with calls := s.calls.filter fun c => c.id != id }

def call (s : State) (id : Nat) : Option Call := s.calls.find? fun c => c.id == id

/-- A call of the window. -/
def asks (s : State) (more : Bool) (filter : Filter) (cursor : Nat) : State :=
  { s with
    calls := s.calls ++ [{ id := s.nextCall, more, filter, cursor }]
    nextCall := s.nextCall + 1 }

/-- Go answers the call `id` with what its query finds now. -/
def answers (s : State) (id : Nat) : State :=
  { s with calls := s.calls.map fun c =>
      if c.id = id then
        { c with answer := some (queryEvents s.rows { c.filter with beforeSeq := c.cursor },
            s.journal.db.nextSeq - 1) }
      else c }

def step (s : State) : Act → Option State
  | .insert uuid now payload e =>
      (s.journal.insertEvent uuid now payload e).map fun (journal, saved) =>
        { s with journal, messages := s.messages ++ [saved] }
  | .message =>
      match s.messages with
      | [] => none
      | e :: messages => some { s with messages, store := s.store.eventNew e }
  | .load filter =>
      some { s.asks false filter 0 with
        store := s.store.load filter
        last := some (s.nextCall, filter) }
  | .loadMore =>
      if s.store.nextCursor = 0 ∨ s.store.loading = true then some s
      else some { s.asks true s.store.filter s.store.nextCursor with
        store := { s.store with loading := true } }
  | .query id =>
      match s.call id with
      | some { answer := none, .. } => some (s.answers id)
      | _ => none
  | .answer id =>
      match s.call id with
      | some { more, filter, answer := some (page, _), .. } =>
          some { s.drop id with
            store := if more then s.store.appended page else .loaded filter page }
      | _ => none
  | .fail id error =>
      match s.call id with
      | some { answer := none, .. } => some { s.drop id with store := s.store.failed error }
      | _ => none

/-- The filter of the last `load`, if it has been answered. -/
def shown (s : State) : Option Filter :=
  s.last.bind fun (id, filter) => if (s.calls.map Call.id).contains id then none else some filter

/-- Everything that was called and sent has arrived. -/
def Settled (s : State) : Prop := s.messages = [] ∧ s.calls = []

/-! ## When a writer of the list does what the others count on -/

/-- The handler of `event:new` and SQL agree on an event, and one that is put on the list is newer
than all of it. -/
def Shows (s : State) (f : Filter) (e : Event) : Prop :=
  if buildEventWhere f e then
    e.id ∈ s.store.items.map Event.id ∨
      (matchesFilter e f = true ∧ ∀ x ∈ s.store.items, x.seq < e.seq)
  else matchesFilter e f = false

/-- The messages of the matching events that a page is too old for are yet to arrive. -/
def Covers (s : State) (f : Filter) (newest : Nat) : Prop :=
  ∀ e ∈ s.rows, buildEventWhere f e = true → newest < e.seq → e ∈ s.messages

/-- The page below a cursor continues the list: of the matching events that are not on it, the
older ones are below the cursor, and the newer ones are not. -/
def Continues (s : State) (f : Filter) (cursor : Nat) : Prop :=
  ∀ e ∈ s.rows, buildEventWhere f e = true →
    e.id ∈ s.store.items.map Event.id ∨
    (cursor ≤ e.seq ∧ ∀ x ∈ s.store.items, x.seq < e.seq) ∨
    (e.seq < cursor ∧ ∃ x ∈ s.store.items, e.seq < x.seq)

/-- What a step has to meet where the last `load` is answered, or is by that step: a message shows
what it should; a page is one of the last filter, and has its place in the list; and the call that
fails is not the last `load`. -/
def Timely (s : State) : Act → Prop
  | .message => ∀ e ∈ s.messages.head?, ∀ f ∈ s.shown, s.Shows f e
  | .answer id => ∀ c ∈ s.call id, ∀ a ∈ c.answer, ∀ f ∈ (s.drop id).shown,
      c.filter = f ∧ if c.more then s.Continues f c.cursor else s.Covers f a.2
  | .fail id _ => ∀ f ∈ (s.drop id).shown, f ∈ s.shown
  | _ => True

instance (s : State) (f : Filter) (e : Event) : Decidable (s.Shows f e) :=
  inferInstanceAs (Decidable (if buildEventWhere f e then
    e.id ∈ s.store.items.map Event.id ∨
      (matchesFilter e f = true ∧ ∀ x ∈ s.store.items, x.seq < e.seq)
  else matchesFilter e f = false))

instance (s : State) (f : Filter) (newest : Nat) : Decidable (s.Covers f newest) :=
  inferInstanceAs (Decidable (∀ e ∈ s.rows,
    buildEventWhere f e = true → newest < e.seq → e ∈ s.messages))

instance (s : State) (f : Filter) (cursor : Nat) : Decidable (s.Continues f cursor) :=
  inferInstanceAs (Decidable (∀ e ∈ s.rows, buildEventWhere f e = true →
    e.id ∈ s.store.items.map Event.id ∨
    (cursor ≤ e.seq ∧ ∀ x ∈ s.store.items, x.seq < e.seq) ∨
    (e.seq < cursor ∧ ∃ x ∈ s.store.items, e.seq < x.seq)))

instance (s : State) : (a : Act) → Decidable (s.Timely a)
  | .insert .. | .load _ | .loadMore | .query _ => .isTrue trivial
  | .message => inferInstanceAs (Decidable (∀ e ∈ s.messages.head?, ∀ f ∈ s.shown, s.Shows f e))
  | .answer id => inferInstanceAs (Decidable (∀ c ∈ s.call id, ∀ a ∈ c.answer,
      ∀ f ∈ (s.drop id).shown,
        c.filter = f ∧ if c.more then s.Continues f c.cursor else s.Covers f a.2))
  | .fail id _ => inferInstanceAs (Decidable (∀ f ∈ (s.drop id).shown, f ∈ s.shown))

/-- **The list is a window of the journal**: its events are distinct and descend, they are the
newest that SQL takes, and all the older ones are below the cursor of the next page. -/
structure Window (s : State) (f : Filter) : Prop where
  distinct : (s.store.items.map Event.id).Nodup
  descends : Descends Event.seq s.store.items
  newest : ∃ n, s.store.items.map key = ((taken f s.rows).take n).map key ∧
    ∀ e ∈ (taken f s.rows).drop n, e.seq < s.store.nextCursor

end State

end SnmpLens.EventList
