import SnmpLens.Notify.Workers

/-!
# The attempts column

A worker's arithmetic uses the attempts of a row as the query returned them. As long
as every attempt that is made is recorded, and a row that a worker holds is not
retried, that is the number a history counts which starts over with the column: it
is one ahead while a send of the row is on the wire.
-/

namespace SnmpLens.Notify

open Events Router Machine

/-- A send of this row is on the wire. -/
def Flying (workers : List Worker) (id : Nat) : Prop :=
  ∃ k ∈ workers, k.sending = true ∧ ∃ q rest, k.queue = q :: rest ∧ q.id = id

/-- `history` counts what the `attempts` column says of the pending rows. -/
structure Tallied (ob : Outbox) (workers : List Worker) (history : Nat → Nat) : Prop where
  fresh : ∀ id, ob.nextID ≤ id → history id = 0
  spent : ∀ r ∈ ob.rows, r.state = .pending → r.attempts < maxAttempts
  idle : ∀ r ∈ ob.rows, r.state = .pending → ¬ Flying workers r.id → history r.id = r.attempts
  flying : ∀ r ∈ ob.rows, r.state = .pending → Flying workers r.id →
    history r.id = r.attempts + 1
  queued : ∀ k ∈ workers, ∀ q ∈ k.queue, ∀ r ∈ ob.rows, r.id = q.id → r.attempts = q.attempts

theorem tallied_start : Tallied .empty [] fun _ => 0 := by
  constructor <;> simp [Outbox.empty]

/-! ## What flies -/

theorem Flying.pending {w : World} (hs : Sound w) {id : Nat} (h : Flying w.workers id) :
    ∃ r ∈ w.outbox.rows, r.state = .pending ∧ r.id = id := by
  obtain ⟨k, hk, _, q, rest, hq, rfl⟩ := h
  obtain ⟨r, hr, hp, hid, _⟩ := hs.rows k hk q (by rw [hq]; exact List.mem_cons_self)
  exact ⟨r, hr, hp, hid⟩

variable {k : Worker}

/-- What flies for a row that is not in front of `k` does not depend on `k`. -/
theorem flying_setWorker {w : World} (hs : Sound w) (hk : k ∈ w.workers) {queue : List Queued}
    {sending : Bool} {id : Nat} (hold : k.sending = true → k.queue.head?.map Queued.id ≠ some id)
    (hnew : sending = true → queue.head?.map Queued.id ≠ some id) :
    Flying (w.setWorker { k with queue, sending }) id ↔ Flying w.workers id := by
  constructor
  · rintro ⟨x, hx, hsx, p, r, hp, rfl⟩
    rcases mem_setWorker hx with rfl | ⟨hx, _⟩
    · have hpq : queue = p :: r := hp
      exact absurd (by rw [hpq]; rfl) (hnew hsx)
    · exact ⟨x, hx, hsx, p, r, hp, rfl⟩
  · rintro ⟨x, hx, hsx, p, r, hp, rfl⟩
    refine ⟨x, List.mem_map.mpr ⟨x, hx, if_neg ?_⟩, hsx, p, r, hp, rfl⟩
    intro hsink
    obtain rfl : x = k := List.inj_on_of_nodup_map hs.sinks hx hk (by simpa using hsink)
    exact hold hsx (by rw [hp]; rfl)

variable {q : Queued}

/-- Only the worker in front of which a row stands can have it on the wire. -/
theorem not_flying_of_front {w : World} (hs : Sound w) (hk : k ∈ w.workers) (hq : q ∈ k.queue)
    (hsend : k.sending = false) : ¬ Flying w.workers q.id := by
  rintro ⟨x, hx, hsx, p, r, hp, hid⟩
  have hxk := hs.worker_unique hx hk (by rw [hp]; exact List.mem_cons_self) hq hid
  rw [hxk, hsend] at hsx
  cases hsx

/-! ## The steps -/

variable {w : World} {history : Nat → Nat}

theorem tallied_enqueue (hs : Sound w) (ht : Tallied w.outbox w.workers history)
    (groups : List RoutedGroup) :
    Tallied (w.outbox.enqueueRouted w.clock groups) w.workers history := by
  obtain ⟨hle, new, hrows, hnew⟩ := w.outbox.extends_enqueueRouted w.clock groups
  have hsplit : ∀ r ∈ (w.outbox.enqueueRouted w.clock groups).rows, r ∈ w.outbox.rows ∨ r ∈ new := by
    intro r hr
    rw [hrows] at hr
    exact List.mem_append.mp hr
  -- a fresh row has an id nothing has been recorded for, and nothing of it flies
  have hnofly : ∀ r ∈ new, ¬ Flying w.workers r.id := by
    intro r hr hf
    obtain ⟨x, hx, _, hid⟩ := hf.pending hs
    have hlt := w.outbox.below x hx
    have hge := (hnew r hr).1
    omega
  refine ⟨?_, ?_, ?_, ?_, ?_⟩
  · intro id hid
    exact ht.fresh id (Nat.le_trans hle hid)
  · intro r hr hp
    rcases hsplit r hr with h | h
    · exact ht.spent r h hp
    · rw [(hnew r h).2.2.1]
      decide
  · intro r hr hp hnf
    rcases hsplit r hr with h | h
    · exact ht.idle r h hp hnf
    · rw [(hnew r h).2.2.1]
      exact ht.fresh _ (hnew r h).1
  · intro r hr hp hf
    rcases hsplit r hr with h | h
    · exact ht.flying r h hp hf
    · exact absurd hf (hnofly r h)
  · intro k hk q hq r hr hid
    rcases hsplit r hr with h | h
    · exact ht.queued k hk q hq r h hid
    · obtain ⟨x, hx, _, hxid, _⟩ := hs.rows k hk q hq
      have hlt := w.outbox.below x hx
      have hge := (hnew r h).1
      omega

theorem tallied_drain {batch : List Delivery} (ht : Tallied w.outbox w.workers history)
    (hw : w.workers = []) (hb : w.outbox.isDueBatch w.clock batch = true) :
    Tallied w.outbox (bySink (batch.map Delivery.queued)) history := by
  have hnofly : ∀ id, ¬ Flying (bySink (batch.map Delivery.queued)) id := by
    rintro id ⟨k, hk, hsend, _⟩
    rw [(mem_bySink hk).2] at hsend
    cases hsend
  refine ⟨ht.fresh, ht.spent, ?_, ?_, ?_⟩
  · intro r hr hp _
    refine ht.idle r hr hp ?_
    rw [hw]
    simp [Flying]
  · intro r _ _ hf
    exact absurd hf (hnofly _)
  · intro k hk q hq r hr hid
    rw [(mem_bySink hk).1] at hq
    obtain ⟨d, hd, rfl⟩ := List.mem_map.mp (List.mem_filter.mp hq).1
    simp only [Outbox.isDueBatch, Bool.and_eq_true, List.all_eq_true] at hb
    have hrow := hb.1.1.1.1 d hd
    simp only [Outbox.due, List.contains_iff_mem, List.mem_filter] at hrow
    rw [w.outbox.unique hr hrow.1 hid]
    rfl

theorem bump_self (history : Nat → Nat) (id : Nat) : bump history id id = history id + 1 := by
  simp [bump]

theorem bump_of_ne (history : Nat → Nat) {id i : Nat} (h : i ≠ id) :
    bump history id i = history i := by
  simp [bump, h]

variable {rest : List Queued}

theorem tallied_startSend (hs : Sound w) (ht : Tallied w.outbox w.workers history)
    (hk : k ∈ w.workers) (hsend : k.sending = false) (hq : k.queue = q :: rest) :
    Tallied w.outbox (w.setWorker { k with sending := true }) (bump history q.id) := by
  have hmem : q ∈ k.queue := by rw [hq]; exact List.mem_cons_self
  obtain ⟨row, hrow, hpend, hrid, _⟩ := hs.rows k hk q hmem
  have hnofly : ¬ Flying w.workers row.id := hrid ▸ not_flying_of_front hs hk hmem hsend
  have hfly : ∀ id, id ≠ q.id →
      (Flying (w.setWorker { k with sending := true }) id ↔ Flying w.workers id) := by
    intro id hne
    refine flying_setWorker hs hk (fun h => absurd (hsend.symm.trans h) (by simp)) fun _ => ?_
    rw [hq]
    simpa using Ne.symm hne
  refine ⟨?_, ht.spent, ?_, ?_, ?_⟩
  · intro id hid
    have hlt := w.outbox.below row hrow
    exact (bump_of_ne history (by omega)).trans (ht.fresh id hid)
  · intro r hr hp hnf
    by_cases hid : r.id = q.id
    · refine absurd ?_ hnf
      refine ⟨{ k with sending := true }, ?_, rfl, q, rest, hq, hid.symm⟩
      exact List.mem_map.mpr ⟨k, hk, by simp⟩
    · have hidle := ht.idle r hr hp fun hf => hnf ((hfly _ hid).mpr hf)
      exact (bump_of_ne history hid).trans hidle
  · intro r hr hp hf
    by_cases hid : r.id = q.id
    · have hrr : r = row := w.outbox.unique hr hrow (hid.trans hrid.symm)
      have hidle := ht.idle row hrow hpend hnofly
      rw [hrr, ← hidle, hrid]
      exact bump_self history q.id
    · have hflying := ht.flying r hr hp ((hfly _ hid).mp hf)
      exact (bump_of_ne history hid).trans hflying
  · intro x hx p hp r hr hid
    rcases mem_setWorker hx with rfl | ⟨hx, _⟩
    · exact ht.queued k hk p hp r hr hid
    · exact ht.queued x hx p hp r hr hid

/-- A failed attempt that leaves its row pending has attempts left. -/
theorem attempts_of_pending {w : World} {outcome : Outcome} {r : Delivery}
    (hp : (w.outcomeRow q outcome r).state = .pending) :
    (w.outcomeRow q outcome r).attempts = r.attempts + 1 ∧ q.attempts + 1 < maxAttempts := by
  cases outcome with
  | sent => exact absurd hp (by simp [World.outcomeRow, Outbox.sentRow])
  | unresolved => exact absurd hp (by simp [World.outcomeRow, Outbox.failedRow, Outcome.dead])
  | failed err =>
      refine ⟨rfl, ?_⟩
      by_contra hge
      have hdead : Outcome.dead q.attempts (.failed err) = true := by
        simp only [Outcome.dead, Bool.or_eq_true, decide_eq_true_eq]
        exact .inr (by omega)
      simp [World.outcomeRow, Outbox.failedRow, hdead] at hp

/-- The delivery in front of a sending worker is a pending row that has been counted. -/
theorem Tallied.sending (hs : Sound w) (ht : Tallied w.outbox w.workers history)
    (hk : k ∈ w.workers) (hsend : k.sending = true) (hq : k.queue = q :: rest) :
    ∃ row ∈ w.outbox.rows, row.state = .pending ∧ row.id = q.id ∧ row.attempts = q.attempts ∧
      q.attempts < maxAttempts ∧ history q.id = q.attempts + 1 := by
  have hmem : q ∈ k.queue := by rw [hq]; exact List.mem_cons_self
  obtain ⟨row, hrow, hpend, hrid, _⟩ := hs.rows k hk q hmem
  have hattempts : row.attempts = q.attempts := ht.queued k hk q hmem row hrow hrid
  have hfly : Flying w.workers row.id := ⟨k, hk, hsend, q, rest, hq, hrid.symm⟩
  refine ⟨row, hrow, hpend, hrid, hattempts, ?_, ?_⟩
  · rw [← hattempts]
    exact ht.spent row hrow hpend
  · rw [← hattempts, ← hrid]
    exact ht.flying row hrow hpend hfly

/-- The rows once the outcome of an attempt is written: the attempted one as its outcome
leaves it, the others as they were. -/
theorem rows_record {outcome : Outcome} {row : Delivery} (hrow : row ∈ w.outbox.rows)
    (hrid : row.id = q.id) :
    ∀ r ∈ (w.record q outcome).outbox.rows,
      (r = w.outcomeRow q outcome row ∧ r.id = q.id) ∨ (r ∈ w.outbox.rows ∧ r.id ≠ q.id) := by
  intro r hr
  obtain ⟨x, hx, rfl⟩ := mem_record.mp hr
  by_cases hid : x.id = q.id
  · have hxr : x = row := w.outbox.unique hx hrow (hid.trans hrid.symm)
    rw [hxr, ← hrid, Outbox.updated_self]
    exact .inl ⟨rfl, id_outcomeRow w q outcome row⟩
  · rw [Outbox.updated_of_ne hid]
    exact .inr ⟨hx, hid⟩

theorem tallied_endSend (hs : Sound w) (ht : Tallied w.outbox w.workers history) (outcome : Outcome)
    (hk : k ∈ w.workers) (hsend : k.sending = true) (hq : k.queue = q :: rest) :
    Tallied (w.record q outcome).outbox
      (w.setWorker { k with queue := rest, sending := false }) history := by
  have hmem : q ∈ k.queue := by rw [hq]; exact List.mem_cons_self
  obtain ⟨row, hrow, hpend, hrid, hattempts, _, hcount⟩ := ht.sending hs hk hsend hq
  have hrows := @rows_record _ _ outcome _ hrow hrid
  have honce := hs.once k hk
  rw [hq] at honce
  have hnofly : ¬ Flying (w.setWorker { k with queue := rest, sending := false }) q.id := by
    rintro ⟨x, hx, hsx, p, r, hp, hid⟩
    rcases mem_setWorker hx with rfl | ⟨hx, hxs⟩
    · cases hsx
    · have hxk := hs.worker_unique hx hk (by rw [hp]; exact List.mem_cons_self) hmem hid
      exact hxs (by rw [hxk])
  have hfly : ∀ id, id ≠ q.id →
      (Flying (w.setWorker { k with queue := rest, sending := false }) id
        ↔ Flying w.workers id) := by
    intro id hne
    refine flying_setWorker hs hk (fun _ => ?_) (by simp)
    rw [hq]
    simpa using Ne.symm hne
  refine ⟨?_, ?_, ?_, ?_, ?_⟩
  · intro id hid
    rw [nextID_record] at hid
    exact ht.fresh id hid
  · intro r hr hp
    rcases hrows r hr with ⟨rfl, _⟩ | ⟨hr, _⟩
    · obtain ⟨heq, hlt⟩ := attempts_of_pending hp
      omega
    · exact ht.spent r hr hp
  · intro r hr hp hnf
    rcases hrows r hr with ⟨rfl, hid⟩ | ⟨hr, hid⟩
    · rw [hid, hcount, (attempts_of_pending hp).1, hattempts]
    · exact ht.idle r hr hp fun hf => hnf ((hfly _ hid).mpr hf)
  · intro r hr hp hf
    rcases hrows r hr with ⟨_, hid⟩ | ⟨hr, hid⟩
    · exact absurd (hid ▸ hf) hnofly
    · exact ht.flying r hr hp ((hfly _ hid).mp hf)
  · intro x hx p hp r hr hid
    -- whoever still holds something does not hold the attempted row
    have hpq : p.id ≠ q.id := by
      intro heq
      rcases mem_setWorker hx with rfl | ⟨hx, hxs⟩
      · exact (List.nodup_cons.mp honce).1 (heq ▸ List.mem_map_of_mem hp)
      · exact hxs (by rw [hs.worker_unique hx hk hp hmem heq])
    rcases hrows r hr with ⟨_, hrq⟩ | ⟨hr, _⟩
    · exact absurd (hid.symm.trans hrq) hpq
    · rcases mem_setWorker hx with rfl | ⟨hx, _⟩
      · exact ht.queued k hk p (by rw [hq]; exact List.mem_cons_of_mem _ hp) r hr hid
      · exact ht.queued x hx p hp r hr hid

theorem tallied_abandon (hs : Sound w) (ht : Tallied w.outbox w.workers history)
    (hk : k ∈ w.workers) (hsend : k.sending = false) :
    Tallied w.outbox (w.setWorker { k with queue := [] }) history := by
  have hfly : ∀ id, Flying (w.setWorker { k with queue := [] }) id ↔ Flying w.workers id :=
    fun id => flying_setWorker hs hk (fun h => absurd (hsend.symm.trans h) (by simp)) (by simp)
  refine ⟨ht.fresh, ht.spent, ?_, ?_, ?_⟩
  · intro r hr hp hnf
    exact ht.idle r hr hp fun hf => hnf ((hfly _).mpr hf)
  · intro r hr hp hf
    exact ht.flying r hr hp ((hfly _).mp hf)
  · intro x hx p hp
    rcases mem_setWorker hx with rfl | ⟨hx, _⟩
    · cases hp
    · exact ht.queued x hx p hp

theorem tallied_noWorkers {ob : Outbox} {workers : List Worker} (ht : Tallied ob workers history)
    (hnf : ∀ id, ¬ Flying workers id) : Tallied ob [] history := by
  refine ⟨ht.fresh, ht.spent, ?_, ?_, by simp⟩
  · intro r hr hp _
    exact ht.idle r hr hp (hnf _)
  · intro r _ _ hf
    exact absurd hf (by simp [Flying])

theorem not_flying_release (hall : ∀ k ∈ w.workers, k.queue = []) (id : Nat) :
    ¬ Flying w.workers id := by
  rintro ⟨k, hk, _, q, rest, hq, _⟩
  rw [hall k hk] at hq
  cases hq

theorem not_flying_restart (hidle : ∀ k ∈ w.workers, k.sending = false) (id : Nat) :
    ¬ Flying w.workers id := by
  rintro ⟨k, hk, hsend, _⟩
  rw [hidle k hk] at hsend
  cases hsend

theorem tallied_retryDelivery (ht : Tallied w.outbox w.workers history) {id : Nat}
    (hfree : ∀ k ∈ w.workers, ∀ q ∈ k.queue, q.id ≠ id) {history' : Nat → Nat}
    (hle : ∀ i, history' i ≤ history i) (hother : ∀ i, i ≠ id → history' i = history i)
    (hzero : ∀ r ∈ w.outbox.rows, r.id = id → history' id = 0) :
    Tallied (w.outbox.retryDelivery w.clock id) w.workers history' := by
  have hnofly : ¬ Flying w.workers id := by
    rintro ⟨k, hk, _, q, rest, hq, hid⟩
    exact hfree k hk q (by rw [hq]; exact List.mem_cons_self) hid
  have hrows : ∀ r ∈ (w.outbox.retryDelivery w.clock id).rows,
      (∃ x ∈ w.outbox.rows, x.id = id ∧ r = Outbox.retriedRow w.clock x)
        ∨ (r ∈ w.outbox.rows ∧ r.id ≠ id) := by
    intro r hr
    obtain ⟨x, hx, rfl⟩ := Outbox.mem_retryDelivery.mp hr
    by_cases hid : x.id = id
    · rw [← hid, Outbox.updated_self]
      exact .inl ⟨x, hx, rfl, rfl⟩
    · rw [Outbox.updated_of_ne hid]
      exact .inr ⟨hx, hid⟩
  refine ⟨?_, ?_, ?_, ?_, ?_⟩
  · intro i hi
    exact Nat.le_zero.mp (Nat.le_trans (hle i) (Nat.le_of_eq (ht.fresh i hi)))
  · intro r hr hp
    rcases hrows r hr with ⟨x, _, _, rfl⟩ | ⟨hr, _⟩
    · exact (by decide : 0 < maxAttempts)
    · exact ht.spent r hr hp
  · intro r hr hp hnf
    rcases hrows r hr with ⟨x, hx, hid, rfl⟩ | ⟨hr, hid⟩
    · have hxid : (Outbox.retriedRow w.clock x).id = id := hid
      rw [hxid, hzero x hx hid]
      rfl
    · exact (hother _ hid).trans (ht.idle r hr hp hnf)
  · intro r hr hp hf
    rcases hrows r hr with ⟨x, hx, hid, rfl⟩ | ⟨hr, hid⟩
    · have hxid : (Outbox.retriedRow w.clock x).id = id := hid
      exact absurd (hxid ▸ hf) hnofly
    · exact (hother _ hid).trans (ht.flying r hr hp hf)
  · intro k hk p hp r hr hpid
    rcases hrows r hr with ⟨x, hx, hid, rfl⟩ | ⟨hr, _⟩
    · have hxid : (Outbox.retriedRow w.clock x).id = x.id := rfl
      exact absurd (hpid.symm.trans (hxid.trans hid)) (hfree k hk p hp)
    · exact ht.queued k hk p hp r hr hpid

theorem tallied_trimmed {ob : Outbox} {workers : List Worker} (ht : Tallied ob workers history)
    (now : Nat) (outbox dead : Bool) : Tallied (trimmed ob now outbox dead) workers history :=
  ⟨fun id hid => ht.fresh id (nextID_trimmed _ _ _ _ ▸ hid),
    fun r hr => ht.spent r (trimmed_subset hr),
    fun r hr => ht.idle r (trimmed_subset hr),
    fun r hr => ht.flying r (trimmed_subset hr),
    fun k hk p hp r hr => ht.queued k hk p hp r (trimmed_subset hr)⟩

end SnmpLens.Notify
