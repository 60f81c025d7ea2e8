import SnmpLens.Router.Written

/-!
# What a replay does

`replayUnrouted` carries the watermark forward batch by batch. Each batch is the
oldest events above the mark, so a written batch leaves nothing owed at or below
its last seq: the promise of the watermark survives every replay, however it
ends. A replay the database answers throughout leaves nothing owed at all, and
one that stops at an event it could not route leaves the watermark below it.
-/

namespace SnmpLens.Router

open Events

variable {groupsFor : Event → List RoutedGroup}

/-! ## Batches -/

variable {e : Event}

theorem mem_eventsAfter {db : DB} {mark limit : Nat} (h : e ∈ db.eventsAfter mark limit) :
    e ∈ db.events ∧ mark < e.seq := by
  have := List.mem_of_mem_take h
  simpa using this

/-- A batch has every event above the mark, up to its own last seq. -/
theorem mem_eventsAfter_of_le {db : DB} {mark limit : Nat} {last e : Event}
    (hlast : (db.eventsAfter mark limit).getLast? = some last) (he : e ∈ db.events)
    (hmark : mark < e.seq) (hle : e.seq ≤ last.seq) : e ∈ db.eventsAfter mark limit := by
  have hmem : e ∈ db.events.filter fun e => mark < e.seq := by simp [he, hmark]
  have hsorted : (db.events.filter fun e => mark < e.seq).Pairwise fun a b => a.seq < b.seq :=
    db.ascending.filter _
  rw [← List.take_append_drop limit (db.events.filter fun e => mark < e.seq)] at hmem hsorted
  rcases List.mem_append.mp hmem with h | h
  · exact h
  · -- what the limit cut off is above everything kept
    have hlt := (List.pairwise_append.mp hsorted).2.2 last (List.mem_of_getLast? hlast) e h
    omega

theorem newest_spec {db : DB} (he : e ∈ db.events) : e.seq ≤ db.newest := by
  have hne : db.events ≠ [] := by rintro h; simp [h] at he
  have hsplit := List.dropLast_concat_getLast hne
  have hnewest : db.newest = (db.events.getLast hne).seq := by
    simp [DB.newest, List.getLast?_eq_some_getLast hne]
  rw [hnewest]
  have hsorted := db.ascending
  rw [← hsplit] at he hsorted
  rcases List.mem_append.mp he with h | h
  · have := (List.pairwise_append.mp hsorted).2.2 e h _ List.mem_cons_self
    omega
  · exact Nat.le_of_eq (congrArg Event.seq (List.mem_singleton.mp h))

/-! ## One round of the loop -/

/-- What a round of the loop writes: the oldest events above the mark. -/
def writeBatch (groupsFor : Event → List RoutedGroup) (db : DB) (mark : Nat) (last : Event) : DB :=
  db.enqueueRouted ((db.eventsAfter mark routeBatchSize).flatMap groupsFor) last.seq

theorem replayLoop_succ (ans : Answers) (fuel : Nat) (db : DB) (mark : Nat) :
    (replayLoop groupsFor ans (fuel + 1) db mark).1 = db
        ∧ ((replayLoop groupsFor ans (fuel + 1) db mark).2 = .done →
            db.eventsAfter mark routeBatchSize = [])
        ∧ (∀ k, (replayLoop groupsFor ans (fuel + 1) db mark).2 = .stoppedAt k →
            mark < k ∧ ∃ e ∈ db.events, e.seq = k)
      ∨ ∃ last ∈ db.events, mark < last.seq
        ∧ (db.eventsAfter mark routeBatchSize).getLast? = some last
        ∧ replayLoop groupsFor ans (fuel + 1) db mark
            = replayLoop groupsFor ans fuel (writeBatch groupsFor db mark last) last.seq := by
  simp only [replayLoop]
  split
  · exact .inl ⟨rfl, by simp, by simp⟩
  · split
    · rename_i hnone
      exact .inl ⟨rfl, fun _ => List.getLast?_eq_none_iff.mp hnone, by simp⟩
    · rename_i last hlast
      split
      · rename_i e hfind
        obtain ⟨hev, hgt⟩ := mem_eventsAfter (List.mem_of_find?_eq_some hfind)
        refine .inl ⟨rfl, by simp, ?_⟩
        intro k hk
        obtain rfl : e.seq = k := by simpa using hk
        exact ⟨hgt, e, hev, rfl⟩
      · split
        · exact .inl ⟨rfl, by simp, by simp⟩
        · obtain ⟨hev, hgt⟩ := mem_eventsAfter (List.mem_of_getLast? hlast)
          exact .inr ⟨last, hev, hgt, hlast, rfl⟩

variable {mark : Nat}

theorem routedThrough_writeBatch {db : DB} {last : Event} (hmark : db.routedThrough = mark)
    (hgt : mark < last.seq) :
    (writeBatch groupsFor db mark last).routedThrough = last.seq := by
  rw [writeBatch, routedThrough_enqueueRouted]
  omega

theorem safeFor_writeBatch {db : DB} {last e : Event} (hsafe : SafeFor groupsFor db e)
    (hmark : db.routedThrough = mark) (hgt : mark < last.seq)
    (hlast : (db.eventsAfter mark routeBatchSize).getLast? = some last) :
    SafeFor groupsFor (writeBatch groupsFor db mark last) e := by
  intro he
  have hlt := hsafe he.of_enqueueRouted
  rw [routedThrough_writeBatch hmark hgt]
  rcases Nat.lt_or_ge last.seq e.seq with h | h
  · exact h
  · -- it was in the batch, so it is written and not owed
    have hmem := mem_eventsAfter_of_le hlast he.1 (by omega) h
    exact absurd (written_enqueueRouted fun g hg => List.mem_flatMap.mpr ⟨e, hmem, hg⟩) he.2

/-! ## The whole loop -/

/-- What a replay leaves alone, and where it can stop. -/
structure ReplayFrame (db db' : DB) (how : ReplayEnd) : Prop where
  events : db'.events = db.events
  nextSeq : db'.nextSeq = db.nextSeq
  outbox : ∀ r ∈ db.outbox, r ∈ db'.outbox
  below : db.routedThrough < db.nextSeq → db'.routedThrough < db.nextSeq
  stopped : ∀ k, how = .stoppedAt k → db'.routedThrough < k ∧ ∃ e ∈ db.events, e.seq = k

variable {ans : Answers}

theorem replayLoop_frame {fuel : Nat} {db : DB} (hmark : db.routedThrough = mark) :
    ReplayFrame db (replayLoop groupsFor ans fuel db mark).1
      (replayLoop groupsFor ans fuel db mark).2 := by
  induction fuel generalizing db mark with
  | zero => exact ⟨rfl, rfl, fun _ h => h, id, by simp [replayLoop]⟩
  | succ fuel ih =>
      rcases @replayLoop_succ groupsFor ans fuel db mark with
        ⟨h1, _, hstop⟩ | ⟨last, hmem, hgt, _, heq⟩
      · rw [h1]
        exact ⟨rfl, rfl, fun _ h => h, id, hmark ▸ hstop⟩
      · have hnext := ih (@routedThrough_writeBatch groupsFor _ _ _ hmark hgt)
        rw [heq]
        refine ⟨hnext.events, hnext.nextSeq, ?_, ?_, hnext.stopped⟩
        · intro r hr
          exact hnext.outbox r (outbox_enqueueRouted db _ _ r hr)
        · intro _
          refine hnext.below ?_
          rw [routedThrough_writeBatch hmark hgt]
          exact db.below last hmem

/-- The loop keeps the promise about an event, and a loop that is done owes it nothing. -/
theorem replayLoop_safeFor {fuel : Nat} {db : DB} (hsafe : SafeFor groupsFor db e)
    (hmark : db.routedThrough = mark) :
    SafeFor groupsFor (replayLoop groupsFor ans fuel db mark).1 e
      ∧ ((replayLoop groupsFor ans fuel db mark).2 = .done →
          ¬ Owed groupsFor (replayLoop groupsFor ans fuel db mark).1 e) := by
  induction fuel generalizing db mark with
  | zero => exact ⟨hsafe, by simp [replayLoop]⟩
  | succ fuel ih =>
      rcases @replayLoop_succ groupsFor ans fuel db mark with
        ⟨h1, hdone, _⟩ | ⟨last, hmem, hgt, hlast, heq⟩
      · rw [h1]
        refine ⟨hsafe, ?_⟩
        intro hd he
        -- nothing is above the mark, and the promise covers the rest
        have hlt := hsafe he
        have hnone := hdone hd
        simp only [DB.eventsAfter, List.take_eq_nil_iff, routeBatchSize, List.filter_eq_nil_iff,
          decide_eq_true_eq, Nat.not_lt] at hnone
        have hle := (hnone.resolve_left (by decide)) e he.1
        omega
      · rw [heq]
        exact ih (safeFor_writeBatch hsafe hmark hgt hlast) (routedThrough_writeBatch hmark hgt)

/-! ## `RoutedThrough` -/

/-- Lowering a watermark that is above every event keeps the promise. -/
theorem safeFor_clampWatermark {db : DB} (h : SafeFor groupsFor db e) :
    SafeFor groupsFor db.clampWatermark e := by
  unfold DB.clampWatermark
  split
  · rename_i hlt
    intro he
    have h1 := h he
    have h2 : e.seq ≤ db.newest := newest_spec he.1
    omega
  · exact h

theorem below_clampWatermark {db : DB} (h : db.routedThrough < db.nextSeq) :
    db.clampWatermark.routedThrough < db.nextSeq := by
  unfold DB.clampWatermark
  split
  · rename_i hlt
    exact Nat.lt_trans hlt h
  · exact h

@[simp] theorem events_clampWatermark (db : DB) : db.clampWatermark.events = db.events := by
  unfold DB.clampWatermark; split <;> rfl

@[simp] theorem nextSeq_clampWatermark (db : DB) : db.clampWatermark.nextSeq = db.nextSeq := by
  unfold DB.clampWatermark; split <;> rfl

@[simp] theorem outbox_clampWatermark (db : DB) : db.clampWatermark.outbox = db.outbox := by
  unfold DB.clampWatermark; split <;> rfl

/-! ## `replayUnrouted` -/

theorem replayUnrouted_frame {db : DB} :
    ReplayFrame db.clampWatermark (replayUnrouted groupsFor ans db).1
      (replayUnrouted groupsFor ans db).2 ∨ replayUnrouted groupsFor ans db = (db, .markUnread) := by
  unfold replayUnrouted
  split
  · exact .inr rfl
  · exact .inl (replayLoop_frame rfl)

@[simp] theorem events_replayUnrouted (ans : Answers) (db : DB) :
    (replayUnrouted groupsFor ans db).1.events = db.events := by
  rcases @replayUnrouted_frame groupsFor ans db with h | h
  · rw [h.events, events_clampWatermark]
  · rw [h]

@[simp] theorem nextSeq_replayUnrouted (ans : Answers) (db : DB) :
    (replayUnrouted groupsFor ans db).1.nextSeq = db.nextSeq := by
  rcases @replayUnrouted_frame groupsFor ans db with h | h
  · rw [h.nextSeq, nextSeq_clampWatermark]
  · rw [h]

theorem below_replayUnrouted {db : DB} (hlt : db.routedThrough < db.nextSeq) :
    (replayUnrouted groupsFor ans db).1.routedThrough < db.nextSeq := by
  rcases @replayUnrouted_frame groupsFor ans db with h | h
  · have := h.below (by simpa using below_clampWatermark hlt)
    simpa using this
  · rw [h]; exact hlt

/-- **A replay keeps the watermark's promise, however it ends.** -/
theorem safeFor_replayUnrouted {db : DB} (h : SafeFor groupsFor db e) :
    SafeFor groupsFor (replayUnrouted groupsFor ans db).1 e := by
  unfold replayUnrouted
  split
  · exact h
  · exact (replayLoop_safeFor (safeFor_clampWatermark h) rfl).1

/-- A replay that stops at an event leaves the watermark below it, and the event journalled. -/
theorem replayUnrouted_stoppedAt {db : DB} {k : Nat}
    (hk : (replayUnrouted groupsFor ans db).2 = .stoppedAt k) :
    (replayUnrouted groupsFor ans db).1.routedThrough < k ∧ ∃ e ∈ db.events, e.seq = k := by
  rcases @replayUnrouted_frame groupsFor ans db with h | h
  · simpa using h.stopped k hk
  · rw [h] at hk
    cases hk

/-! ## A replay that is answered throughout -/

/-- How many journalled events a replay still has above its mark. -/
def above (db : DB) (mark : Nat) : Nat := (db.events.filter fun e => mark < e.seq).length

/-- Moving the mark to the seq of an event above it leaves fewer. -/
theorem above_lt {db : DB} {last : Event} (hmem : last ∈ db.events) (hgt : mark < last.seq) :
    above db last.seq < above db mark := by
  have hsub : (db.events.filter fun e => last.seq < e.seq)
      = (db.events.filter fun e => mark < e.seq).filter fun e => last.seq < e.seq := by
    rw [List.filter_filter]
    refine List.filter_congr fun e _ => ?_
    by_cases h : last.seq < e.seq
    · simp [h, Nat.lt_trans hgt h]
    · simp [h]
  unfold above
  rw [hsub]
  refine List.length_filter_lt_length_iff_exists.mpr ⟨last, by simp [hmem, hgt], by simp⟩

/-- With fuel for one more round than there are events, an answered replay is done. -/
theorem replayLoop_done {fuel : Nat} {db : DB} (hfuel : above db mark < fuel) :
    (replayLoop groupsFor .all fuel db mark).2 = .done := by
  induction fuel generalizing db mark with
  | zero => exact absurd hfuel (Nat.not_lt_zero _)
  | succ fuel ih =>
      simp only [replayLoop, Answers.all, Bool.not_true, Bool.false_eq_true, if_false]
      split
      · rfl
      · rename_i last hlast
        obtain ⟨hmem, hgt⟩ := mem_eventsAfter (List.mem_of_getLast? hlast)
        have hnone : (db.eventsAfter mark routeBatchSize).find? (fun _ => false) = none := by
          simp
        rw [hnone]
        refine ih ?_
        exact Nat.lt_of_lt_of_le (above_lt hmem hgt) (Nat.le_of_lt_succ hfuel)

/-- **A replay the database answers throughout owes nothing the watermark still covered.** -/
theorem replayUnrouted_all {db : DB} (h : SafeFor groupsFor db e) :
    ¬ Owed groupsFor (replayUnrouted groupsFor .all db).1 e := by
  have hdone : (replayLoop groupsFor .all (db.clampWatermark.events.length + 1)
      db.clampWatermark db.clampWatermark.routedThrough).2 = .done :=
    replayLoop_done (Nat.lt_succ_of_le (List.length_filter_le _ _))
  exact (replayLoop_safeFor (safeFor_clampWatermark h) rfl).2 hdone

end SnmpLens.Router
