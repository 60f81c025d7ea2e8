import SnmpLens.Storage.DataPoints

/-!
# When a flush writes what it took

Every queued point is in one place: settled, held by the flush in progress, or
buffered, in that order. That accounting holds in every run. What does not is
that a flush the database answers writes the points of the sessions that exist:
the batch is one transaction, and a single point of a deleted session makes all
of it fail, now and at every later flush. `faithful_iff` says that this is the
only way: a run loses nothing else exactly when no answered flush found a point
of a missing session next to a point of an existing one.
-/

namespace SnmpLens.Storage

open Events Machine

/-! ## The transaction -/

theorem insertPoint_eq_some {db db' : DB} {p : DataPoint} (h : db.insertPoint p = some db') :
    db.hasSession p.sessionID = true ∧ db'.sessions = db.sessions ∧
      db'.inserted = db.inserted ++ [p] := by
  unfold DB.insertPoint at h
  split at h
  · rename_i hs
    obtain rfl := Option.some.inj h
    exact ⟨hs, rfl, rfl⟩
  · cases h

theorem insertPoint_isSome {db : DB} {p : DataPoint} :
    (db.insertPoint p).isSome ↔ db.hasSession p.sessionID = true := by
  unfold DB.insertPoint
  split
  · rename_i hs
    simp [hs]
  · rename_i hs
    simp [hs]

theorem hasSession_congr {db db' : DB} (h : db'.sessions = db.sessions) (id : String) :
    db'.hasSession id = db.hasSession id := by
  rw [DB.hasSession, h, DB.hasSession]

/-- **The transaction succeeds exactly when every session it names exists**, and then
inserts the points in order. -/
theorem writePoints_isSome_iff {db : DB} {points : List DataPoint} :
    (db.writePoints points).isSome ↔ ∀ p ∈ points, db.hasSession p.sessionID = true := by
  induction points generalizing db with
  | nil => simp [DB.writePoints]
  | cons p rest ih =>
      rw [DB.writePoints, List.forall_mem_cons]
      cases hp : db.insertPoint p with
      | none =>
          have hno : ¬ db.hasSession p.sessionID = true := by
            rw [← insertPoint_isSome, hp]
            simp
          simp [hno]
      | some db' =>
          obtain ⟨hyes, hsame, _⟩ := insertPoint_eq_some hp
          have hrest := @ih db'
          simp only [hasSession_congr hsame] at hrest
          simpa [hyes] using hrest

theorem inserted_writePoints {db db' : DB} {points : List DataPoint}
    (h : db.writePoints points = some db') : db'.inserted = db.inserted ++ points := by
  induction points generalizing db with
  | nil =>
      obtain rfl := Option.some.inj h
      simp
  | cons p rest ih =>
      obtain ⟨mid, hp, hrest⟩ := Option.bind_eq_some_iff.mp h
      rw [ih hrest, (insertPoint_eq_some hp).2.2, List.append_assoc, List.singleton_append]

/-- The cap drops the oldest points and only those: what is kept is the newest
`maxBufferedPoints`, and nothing is dropped from fewer. -/
theorem restoreBatch_spec (points batch : List DataPoint) :
    (restoreBatch points batch).1 ++ (restoreBatch points batch).2 = points ++ batch ∧
      ((restoreBatch points batch).1 ≠ [] → maxBufferedPoints < (points ++ batch).length ∧
        (restoreBatch points batch).2.length = maxBufferedPoints) := by
  simp only [restoreBatch]
  generalize points ++ batch = held
  refine ⟨List.take_append_drop _ _, ?_⟩
  intro hne
  have hover : held.length - maxBufferedPoints ≠ 0 := by
    intro h0
    exact hne (by rw [h0, List.take_zero])
  rw [List.length_drop]
  omega

/-! ## The accounting -/

/-- The points that were written, in the order they were settled. -/
def writtenOf (settled : List (DataPoint × Fate)) : List DataPoint :=
  (settled.filter fun s => s.2 == .written).map Prod.fst

/-- Every queued point is in one place, in queue order; the rows ever inserted are the
points settled as written, in that order; and a point is dropped only beyond the cap. -/
structure Accounted (w : World) : Prop where
  order : w.queued = w.settled.map Prod.fst ++ w.flush.points ++ w.batch
  rows : w.db.inserted = writtenOf w.settled
  capped : ∀ p held, (p, Fate.dropped held) ∈ w.settled → maxBufferedPoints < held

theorem accounted_start (db : DB) : Accounted (World.start db) :=
  ⟨rfl, rfl, by simp [World.start]⟩

theorem writtenOf_append (l l' : List (DataPoint × Fate)) :
    writtenOf (l ++ l') = writtenOf l ++ writtenOf l' := by
  simp [writtenOf]

theorem writtenOf_written (points : List DataPoint) :
    writtenOf (points.map fun p => (p, .written)) = points := by
  induction points with
  | nil => rfl
  | cons p rest ih =>
      have hcons : writtenOf ((p :: rest).map fun p => (p, Fate.written))
          = p :: writtenOf (rest.map fun p => (p, Fate.written)) := rfl
      rw [hcons, ih]

theorem writtenOf_dropped (points : List DataPoint) (held : Nat) :
    writtenOf (points.map fun p => (p, .dropped held)) = [] := by
  induction points with
  | nil => rfl
  | cons p rest ih => exact ih

variable {w w' : World}

/-- A step other than a flush's leaves the buffer, the history and the inserted rows alone. -/
theorem accounted_of_frame (h : Accounted w) (hq : w'.queued = w.queued)
    (hs : w'.settled = w.settled) (hp : w'.flush.points = w.flush.points) (hb : w'.batch = w.batch)
    (hi : w'.db.inserted = w.db.inserted) : Accounted w' := by
  refine ⟨?_, ?_, ?_⟩
  · rw [hq, hs, hp, hb]
    exact h.order
  · rw [hi, hs]
    exact h.rows
  · rw [hs]
    exact h.capped

theorem accounted_write {available : Bool} (h : Accounted w)
    (hs : step w (.write available) = some w') : Accounted w' := by
  simp only [step] at hs
  split at hs
  · rename_i points hf
    split at hs
    · obtain rfl := Option.some.inj hs
      exact accounted_of_frame h rfl rfl (by rw [hf]; rfl) rfl rfl
    · split at hs
      · rename_i db hw
        obtain rfl := Option.some.inj hs
        refine ⟨?_, ?_, ?_⟩
        · have horder := h.order
          rw [hf] at horder
          rw [horder, List.map_append, List.map_map]
          simp [Flush.points, Function.comp_def]
        · rw [writtenOf_append, writtenOf_written, inserted_writePoints hw, h.rows]
        · intro p held hm
          rcases List.mem_append.mp hm with hm | hm
          · exact h.capped p held hm
          · obtain ⟨_, _, heq⟩ := List.mem_map.mp hm
            exact absurd (congrArg Prod.snd heq) (by simp)
      · obtain rfl := Option.some.inj hs
        exact accounted_of_frame h rfl rfl (by rw [hf]; rfl) rfl rfl
  · cases hs

theorem accounted_restore (h : Accounted w) (hs : step w .restore = some w') : Accounted w' := by
  simp only [step] at hs
  split at hs
  · rename_i points hf
    obtain rfl := Option.some.inj hs
    obtain ⟨hsplit, hover⟩ := restoreBatch_spec points w.batch
    refine ⟨?_, ?_, ?_⟩
    · have horder := h.order
      rw [hf] at horder
      rw [horder, List.map_append, List.map_map]
      simp only [Flush.points, Function.comp_def, List.map_id', List.append_nil, List.append_assoc]
      rw [hsplit]
    · rw [writtenOf_append, writtenOf_dropped, List.append_nil]
      exact h.rows
    · intro p held hm
      rcases List.mem_append.mp hm with hm | hm
      · exact h.capped p held hm
      · obtain ⟨q, hq, heq⟩ := List.mem_map.mp hm
        injection heq with _ hfate
        injection hfate with hheld
        rw [← hheld]
        exact (hover (List.ne_nil_of_mem hq)).1
  · cases hs

/-- **Every step accounts for every point.** -/
theorem accounted_step {a : Act} (h : Accounted w) (hs : step w a = some w') :
    Accounted w' := by
  cases a with
  | queueDataPoints points =>
      obtain rfl := Option.some.inj hs
      refine ⟨?_, h.rows, h.capped⟩
      rw [h.order, List.append_assoc _ w.batch]
  | take =>
      simp only [step] at hs
      split at hs
      · rename_i hf
        split at hs
        · cases hs
        · obtain rfl := Option.some.inj hs
          refine ⟨?_, h.rows, h.capped⟩
          have horder := h.order
          rw [hf] at horder
          simpa [Flush.points] using horder
      · cases hs
  | write available => exact accounted_write h hs
  | restore => exact accounted_restore h hs
  | createSession id =>
      obtain ⟨db, hdb, rfl⟩ := Option.map_eq_some_iff.mp hs
      unfold DB.createSession at hdb
      split at hdb
      · cases hdb
      · obtain rfl := Option.some.inj hdb
        exact accounted_of_frame h rfl rfl rfl rfl rfl
  | _ =>
      obtain rfl := Option.some.inj hs
      exact accounted_of_frame h rfl rfl rfl rfl rfl

/-! ## What blocks a flush -/

/-- An answered write does not find a point of a missing session next to a point of an
existing one. -/
def Unblocked (w : World) : Act → Prop
  | .write true => ∀ points, w.flush = .writing points →
      (∀ p ∈ points, w.db.hasSession p.sessionID = true) ∨
      (∀ p ∈ points, ¬ w.db.hasSession p.sessionID = true)
  | _ => True

/-- **A step misses nothing exactly when its write is unblocked.** -/
theorem missed_step {a : Act} (hs : step w a = some w') :
    w'.missed = [] ↔ w.missed = [] ∧ Unblocked w a := by
  cases a with
  | write available =>
      simp only [step] at hs
      split at hs
      · rename_i points hf
        cases available with
        | false =>
            obtain rfl := Option.some.inj hs
            simp [Unblocked]
        | true =>
            simp only [Bool.not_true, Bool.false_eq_true, if_false] at hs
            split at hs
            · rename_i db hw
              obtain rfl := Option.some.inj hs
              have hall := writePoints_isSome_iff.mp (by rw [hw]; rfl)
              constructor
              · intro hm
                refine ⟨hm, ?_⟩
                intro points' hf'
                obtain rfl : points = points' := Flush.writing.inj (hf.symm.trans hf')
                exact .inl hall
              · exact And.left
            · rename_i hw
              obtain rfl := Option.some.inj hs
              have hnot : ¬ ∀ p ∈ points, w.db.hasSession p.sessionID = true := by
                rw [← writePoints_isSome_iff, hw]
                simp
              simp only [List.append_eq_nil_iff, List.filter_eq_nil_iff]
              constructor
              · rintro ⟨hm, hnone⟩
                refine ⟨hm, ?_⟩
                intro points' hf'
                obtain rfl : points = points' := Flush.writing.inj (hf.symm.trans hf')
                exact .inr hnone
              · rintro ⟨hm, hun⟩
                exact ⟨hm, (hun points hf).resolve_left hnot⟩
      · cases hs
  | take =>
      simp only [step] at hs
      split at hs
      · split at hs
        · cases hs
        · obtain rfl := Option.some.inj hs
          simp [Unblocked]
      · cases hs
  | restore =>
      simp only [step] at hs
      split at hs
      · obtain rfl := Option.some.inj hs
        simp [Unblocked]
      · cases hs
  | createSession id =>
      obtain ⟨db, _, rfl⟩ := Option.map_eq_some_iff.mp hs
      simp [Unblocked]
  | _ =>
      obtain rfl := Option.some.inj hs
      simp [Unblocked]

theorem missed_run {acts : List Act} (h : Run step (fun _ _ => True) w acts w') :
    w'.missed = [] ↔ w.missed = [] ∧ Run step Unblocked w acts w' := by
  induction h with
  | refl s => exact ⟨fun hm => ⟨hm, .refl s⟩, And.left⟩
  | @head s t u a as _ hs _ ih =>
      rw [ih, missed_step hs, and_assoc]
      refine and_congr_right fun _ => ?_
      constructor
      · rintro ⟨hun, hrun⟩
        exact .head hun hs hrun
      · intro hrun
        cases hrun with
        | head hun hs' hrun =>
            obtain rfl := Option.some.inj (hs.symm.trans hs')
            exact ⟨hun, hrun⟩

/-! ## The law -/

/-- What a run owes the points queued in it: each is in one place in queue order, a row was
inserted for it exactly if it was settled as written, it was dropped only as one of the
oldest beyond the cap, and no answered flush missed one whose session existed. -/
structure Faithful (w : World) : Prop extends Accounted w where
  missed : w.missed = []

/--
**Buffered points of one session do not block another's exactly as long as no
answered flush finds both kinds in its batch.**
-/
theorem faithful_iff {db : DB} {acts : List Act} {w : World}
    (h : Run step (fun _ _ => True) (World.start db) acts w) :
    Faithful w ↔ Run step Unblocked (World.start db) acts w := by
  have hacc : Accounted w :=
    h.invariant (accounted_start db) fun _ _ _ hi _ hs => accounted_step hi hs
  have hmiss := missed_run h
  constructor
  · intro hf
    exact (hmiss.mp hf.missed).2
  · intro hrun
    exact ⟨hacc, hmiss.mpr ⟨rfl, hrun⟩⟩

/-- Two sessions, a point of each, one flush. -/
def twoSessions : List Act :=
  [.createSession "a", .createSession "b",
    .queueDataPoints [⟨"a", "", "", none, none, none, 0, "", "", ""⟩],
    .queueDataPoints [⟨"b", "", "", none, none, none, 0, "", "", ""⟩], .take]

/-- The database answers, and both sessions exist. -/
theorem faithful_iff_twoSessions :
    ∃ w, Run step Unblocked (World.start .empty) (twoSessions ++ [.write true]) w ∧
      w.settled.length = 2 := by
  have hend : (exec step (World.start .empty) (twoSessions ++ [.write true])).map
      (fun w => (w.settled.length, w.missed)) = some (2, []) := by decide
  obtain ⟨w, hw, heq⟩ := Option.map_eq_some_iff.mp hend
  obtain ⟨hlen, hm⟩ := Prod.mk.inj heq
  have hrun := run_of_exec hw
  have hacc : Accounted w :=
    hrun.invariant (accounted_start .empty) fun _ _ _ hi _ hs => accounted_step hi hs
  exact ⟨w, (faithful_iff hrun).mp ⟨hacc, hm⟩, hlen⟩

/-- **The claim fails when a session is deleted between queueing and flushing.** The
database answers, session `b` exists, and its point is not written. -/
theorem deleted_session_blocks :
    ¬ ∀ (acts : List Act) (w : World),
        Run step (fun _ _ => True) (World.start .empty) acts w → Faithful w := by
  intro hall
  have hend : (exec step (World.start .empty)
      (twoSessions ++ [.deleteSession "a", .write true])).map
      (fun w => w.missed.length) = some 1 := by decide
  obtain ⟨w, hw, hlen⟩ := Option.map_eq_some_iff.mp hend
  have hmiss := (hall _ w (run_of_exec hw)).missed
  rw [hmiss] at hlen
  cases hlen

end SnmpLens.Storage
