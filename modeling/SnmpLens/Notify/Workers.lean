import SnmpLens.Notify.Dispatcher
import Mathlib.Data.List.Dedup

/-!
# What the workers hold

Every delivery a worker holds is a pending row of the outbox, held by the one
worker of its destination and held once. Nothing outside can take that away: an
outcome is written only by the worker that holds the row, the operator's retry
leaves a pending row pending, and no trim removes one. `step_moves` says once
what each step can do.
-/

namespace SnmpLens.Notify

open Events Router Machine

/-! ## The table -/

variable {r : Delivery} {ob : Outbox} {now : Nat}

namespace Outbox

theorem unique (ob : Outbox) {a b : Delivery} (ha : a ∈ ob.rows) (hb : b ∈ ob.rows)
    (h : a.id = b.id) : a = b := by
  have hnodup : (ob.rows.map Delivery.id).Nodup :=
    List.pairwise_map.mpr (ob.ascending.imp fun hlt => Nat.ne_of_lt hlt)
  exact List.inj_on_of_nodup_map hnodup ha hb h

theorem mem_markSent {id : Nat} :
    r ∈ (ob.markSent id).rows ↔ ∃ x ∈ ob.rows, updated id sentRow x = r := List.mem_map

theorem mem_markFailed {id nextTry : Nat} {errMsg : String} {dead : Bool} :
    r ∈ (ob.markFailed id errMsg nextTry dead).rows ↔
      ∃ x ∈ ob.rows, updated id (failedRow errMsg nextTry dead) x = r := List.mem_map

theorem mem_retryDelivery {now id : Nat} :
    r ∈ (ob.retryDelivery now id).rows ↔ ∃ x ∈ ob.rows, updated id (retriedRow now) x = r :=
  List.mem_map

theorem updated_of_ne {id : Nat} {f : Delivery → Delivery} (h : r.id ≠ id) :
    updated id f r = r := by
  unfold updated
  rw [if_neg (by simpa using h)]

theorem updated_self {f : Delivery → Delivery} : updated r.id f r = f r := by
  unfold updated
  rw [if_pos (by simp)]

theorem mem_delete {gone : Delivery → Bool} :
    r ∈ (ob.delete gone).rows ↔ r ∈ ob.rows ∧ gone r = false := by
  simp [delete]

/-- `ob'` has the rows of `ob` and, behind them, fresh ones of some groups. -/
def Extends (now : Nat) (groups : List RoutedGroup) (ob ob' : Outbox) : Prop :=
  ob.nextID ≤ ob'.nextID ∧ ∃ new, ob'.rows = ob.rows ++ new ∧
    ∀ r ∈ new, ob.nextID ≤ r.id ∧ r.state = .pending ∧ r.attempts = 0 ∧ r.nextTry = now ∧
      ∃ g ∈ groups, r.event = g.event ∧ r.sinkID ∈ g.sinkIDs

theorem Extends.refl (now : Nat) (groups : List RoutedGroup) (ob : Outbox) :
    Extends now groups ob ob := ⟨Nat.le_refl _, [], by simp, by simp⟩

variable {groups : List RoutedGroup}

theorem Extends.trans {a b c : Outbox} (h : Extends now groups a b) (h' : Extends now groups b c) :
    Extends now groups a c := by
  obtain ⟨hle, new, hrows, hnew⟩ := h
  obtain ⟨hle', new', hrows', hnew'⟩ := h'
  refine ⟨Nat.le_trans hle hle', new ++ new', by rw [hrows', hrows, List.append_assoc], ?_⟩
  intro r hr
  rcases List.mem_append.mp hr with hr | hr
  · exact hnew r hr
  · obtain ⟨hid, hrest⟩ := hnew' r hr
    exact ⟨Nat.le_trans hle hid, hrest⟩

theorem extends_insertIgnore (ob : Outbox) (now : Nat) {g : RoutedGroup} {sinkID : String}
    (hg : g ∈ groups) (hs : sinkID ∈ g.sinkIDs) :
    Extends now groups ob (ob.insertIgnore now g sinkID) := by
  unfold insertIgnore
  split
  · exact .refl now groups ob
  · refine ⟨Nat.le_succ _, [ob.fresh now g sinkID], rfl, ?_⟩
    intro r hr
    rw [List.mem_singleton.mp hr]
    exact ⟨Nat.le_refl _, rfl, rfl, rfl, g, hg, rfl, hs⟩

theorem extends_enqueueDeliveries (ob : Outbox) (now : Nat) {g : RoutedGroup} (hg : g ∈ groups) :
    Extends now groups ob (ob.enqueueDeliveries now g) := by
  have hall : ∀ (sinkIDs : List String) (ob : Outbox), (∀ s ∈ sinkIDs, s ∈ g.sinkIDs) →
      Extends now groups ob (sinkIDs.foldl (fun ob s => ob.insertIgnore now g s) ob) := by
    intro sinkIDs
    induction sinkIDs with
    | nil => exact fun ob _ => .refl now groups ob
    | cons s rest ih =>
        intro ob hsub
        exact (extends_insertIgnore ob now hg (hsub s List.mem_cons_self)).trans
          (ih _ fun x hx => hsub x (List.mem_cons_of_mem _ hx))
  exact hall g.sinkIDs ob fun _ h => h

theorem extends_enqueueRouted (ob : Outbox) (now : Nat) (groups : List RoutedGroup) :
    Extends now groups ob (ob.enqueueRouted now groups) := by
  have hall : ∀ (gs : List RoutedGroup) (ob : Outbox), (∀ g ∈ gs, g ∈ groups) →
      Extends now groups ob (gs.foldl (fun ob g => ob.enqueueDeliveries now g) ob) := by
    intro gs
    induction gs with
    | nil => exact fun ob _ => .refl now groups ob
    | cons g rest ih =>
        intro ob hsub
        exact (extends_enqueueDeliveries ob now (hsub g List.mem_cons_self)).trans
          (ih _ fun x hx => hsub x (List.mem_cons_of_mem _ hx))
  exact hall groups ob fun _ h => h

theorem mem_trimOutbox (hr : r ∈ ob.rows) (hs : r.state ≠ .sent) :
    r ∈ (ob.trimOutbox now).rows := by
  refine mem_delete.mpr ⟨hr, ?_⟩
  simp [hs]

theorem trimOutbox_subset (hr : r ∈ (ob.trimOutbox now).rows) :
    r ∈ ob.rows := (mem_delete.mp hr).1

theorem mem_trimDeadLetters {keep : Nat} (hr : r ∈ ob.rows) (hs : r.state ≠ .dead) :
    r ∈ (ob.trimDeadLetters keep).rows := by
  unfold trimDeadLetters
  split
  · exact hr
  · refine mem_delete.mpr ⟨hr, ?_⟩
    simp [hs]

theorem trimDeadLetters_subset {keep : Nat} (hr : r ∈ (ob.trimDeadLetters keep).rows) :
    r ∈ ob.rows := by
  unfold trimDeadLetters at hr
  split at hr
  · exact hr
  · exact (mem_delete.mp hr).1

@[simp] theorem nextID_trimDeadLetters (ob : Outbox) (keep : Nat) :
    (ob.trimDeadLetters keep).nextID = ob.nextID := by
  unfold trimDeadLetters
  split <;> rfl

end Outbox

/-! ## What a step can do -/

/-- The two trims, each run or not. -/
def trimmed (ob : Outbox) (now : Nat) (outbox dead : Bool) : Outbox :=
  let ob := if outbox then ob.trimOutbox now else ob
  if dead then ob.trimDeadLetters maxDeadLetters else ob

theorem mem_trimmed {outbox dead : Bool} (hr : r ∈ ob.rows) (hs : r.state = .pending) :
    r ∈ (trimmed ob now outbox dead).rows := by
  have h1 : r ∈ (if outbox then ob.trimOutbox now else ob).rows := by
    split
    · exact Outbox.mem_trimOutbox hr (by simp [hs])
    · exact hr
  unfold trimmed
  dsimp only
  split
  · exact Outbox.mem_trimDeadLetters h1 (by simp [hs])
  · exact h1

theorem trimmed_subset {outbox dead : Bool} (hr : r ∈ (trimmed ob now outbox dead).rows) :
    r ∈ ob.rows := by
  have h1 : r ∈ (if outbox then ob.trimOutbox now else ob).rows := by
    unfold trimmed at hr
    dsimp only at hr
    split at hr
    · exact Outbox.trimDeadLetters_subset hr
    · exact hr
  split at h1
  · exact Outbox.trimOutbox_subset h1
  · exact h1

@[simp] theorem nextID_trimmed (ob : Outbox) (now : Nat) (outbox dead : Bool) :
    (trimmed ob now outbox dead).nextID = ob.nextID := by
  unfold trimmed
  cases outbox <;> cases dead <;> simp [Outbox.trimOutbox, Outbox.delete]

/-- Every step, with its guard and what it leaves. -/
inductive Moves (w : World) : Act → World → Prop
  | tick (n : Nat) : Moves w (.tick n) { w with clock := w.clock + n }
  | enqueue (groups : List RoutedGroup) : Moves w (.enqueue groups) (w.enqueue groups)
  | drain {batch : List Delivery} : w.workers = [] →
      w.outbox.isDueBatch w.clock batch = true →
      Moves w (.drain batch) { w with workers := bySink (batch.map Delivery.queued) }
  | start {k : Worker} {q : Queued} {rest : List Queued} : k ∈ w.workers →
      k.sending = false → k.queue = q :: rest →
      Moves w (.start k.sinkID) (w.startSend k q)
  | finish {k : Worker} {q : Queued} {rest : List Queued} {outcome : Outcome}
      {recorded : Bool} : k ∈ w.workers → k.sending = true → k.queue = q :: rest →
      Moves w (.finish k.sinkID outcome recorded) (w.endSend k q rest outcome recorded)
  | abandon {k : Worker} : k ∈ w.workers → k.sending = false →
      Moves w (.abandon k.sinkID) { w with workers := w.setWorker { k with queue := [] } }
  | release : (∀ k ∈ w.workers, k.queue = []) → Moves w .release { w with workers := [] }
  | retryDelivery (id : Nat) :
      Moves w (.retryDelivery id)
        { w with
          outbox := w.outbox.retryDelivery w.clock id
          tries :=
            if w.outbox.rows.any (fun r => r.id == id && r.state != .pending)
            then reset w.tries id else w.tries
          sinceRetry := reset w.sinceRetry id }
  | trim {outbox dead : Bool} : w.trimsOwed ≠ 0 →
      Moves w (.trim outbox dead)
        { w with
          outbox := trimmed w.outbox w.clock outbox dead, trimsOwed := w.trimsOwed - 1 }
  | restart : Moves w .restart { w with writes := 0, trimsOwed := 0, workers := [] }

variable {w : World}

theorem mem_of_worker {sinkID : String} {k : Worker} (h : w.worker sinkID = some k) :
    k ∈ w.workers ∧ k.sinkID = sinkID :=
  ⟨List.mem_of_find?_eq_some h, by simpa using List.find?_some h⟩

/-- **Inversion.** A step that is taken is one of the moves. -/
theorem step_moves {w w' : World} {a : Act} (h : step w a = some w') : Moves w a w' := by
  cases a with
  | tick n =>
      obtain rfl := Option.some.inj h
      exact .tick n
  | enqueue groups =>
      obtain rfl := Option.some.inj h
      exact .enqueue groups
  | drain batch =>
      simp only [step] at h
      split at h
      · rename_i hc
        obtain ⟨hw, hb⟩ := Bool.and_eq_true_iff.mp hc
        obtain rfl := Option.some.inj h
        exact .drain (List.isEmpty_iff.mp hw) hb
      · cases h
  | start sinkID =>
      obtain ⟨k, hk, hs⟩ := Option.bind_eq_some_iff.mp h
      obtain ⟨hmem, rfl⟩ := mem_of_worker hk
      split at hs
      · rename_i hsend hq
        obtain rfl := Option.some.inj hs
        exact .start hmem hsend hq
      · cases hs
  | finish sinkID outcome recorded =>
      obtain ⟨k, hk, hs⟩ := Option.bind_eq_some_iff.mp h
      obtain ⟨hmem, rfl⟩ := mem_of_worker hk
      split at hs
      · rename_i hsend hq
        obtain rfl := Option.some.inj hs
        exact .finish hmem hsend hq
      · cases hs
  | abandon sinkID =>
      obtain ⟨k, hk, hs⟩ := Option.bind_eq_some_iff.mp h
      obtain ⟨hmem, rfl⟩ := mem_of_worker hk
      split at hs
      · cases hs
      · rename_i hsend
        obtain rfl := Option.some.inj hs
        exact .abandon hmem (by simpa using hsend)
  | release =>
      simp only [step] at h
      split at h
      · rename_i hall
        obtain rfl := Option.some.inj h
        exact .release (by simpa using hall)
      · cases h
  | retryDelivery id =>
      obtain rfl := Option.some.inj h
      exact .retryDelivery id
  | trim outbox dead =>
      simp only [step] at h
      split at h
      · cases h
      · rename_i howed
        obtain rfl := Option.some.inj h
        exact .trim (by simpa using howed)
  | restart =>
      obtain rfl := Option.some.inj h
      exact .restart

/-! ## The workers of a drain -/

theorem mem_setWorker {k x : Worker} (h : x ∈ w.setWorker k) :
    x = k ∨ (x ∈ w.workers ∧ x.sinkID ≠ k.sinkID) := by
  obtain ⟨y, hy, rfl⟩ := List.mem_map.mp h
  split
  · exact .inl rfl
  · rename_i hne
    exact .inr ⟨hy, by simpa using hne⟩

theorem sinks_setWorker (w : World) (k : Worker) :
    (w.setWorker k).map Worker.sinkID = w.workers.map Worker.sinkID := by
  unfold World.setWorker
  rw [List.map_map]
  refine List.map_congr_left fun x _ => ?_
  rw [Function.comp_apply]
  split
  · rename_i h
    exact (by simpa using h : x.sinkID = k.sinkID).symm
  · rfl

theorem sinks_bySink (batch : List Queued) :
    (bySink batch).map Worker.sinkID = (batch.map Queued.sinkID).dedup := by
  unfold bySink
  rw [List.map_map]
  exact List.map_id' _

theorem mem_bySink {batch : List Queued} {k : Worker} (h : k ∈ bySink batch) :
    k.queue = batch.filter (fun q => q.sinkID == k.sinkID) ∧ k.sending = false := by
  obtain ⟨s, _, rfl⟩ := List.mem_map.mp h
  exact ⟨rfl, rfl⟩

/-- What the workers hold. -/
structure Sound (w : World) : Prop where
  sinks : (w.workers.map Worker.sinkID).Nodup
  own : ∀ k ∈ w.workers, ∀ q ∈ k.queue, q.sinkID = k.sinkID
  once : ∀ k ∈ w.workers, (k.queue.map Queued.id).Nodup
  busy : ∀ k ∈ w.workers, k.sending = true → k.queue ≠ []
  rows : ∀ k ∈ w.workers, ∀ q ∈ k.queue, ∃ r ∈ w.outbox.rows,
    r.state = .pending ∧ r.id = q.id ∧ r.sinkID = q.sinkID ∧ r.event = q.event

theorem sound_start (outbox : Outbox) (clock : Nat) : Sound (World.start outbox clock) := by
  constructor <;> simp [World.start]

/-- A step that leaves the workers alone, and every pending row pending, keeps them sound. -/
theorem Sound.of_rows {w w' : World} (h : Sound w) (hw : w'.workers = w.workers)
    (hr : ∀ r ∈ w.outbox.rows, r.state = .pending → ∃ r' ∈ w'.outbox.rows,
      r'.state = .pending ∧ r'.id = r.id ∧ r'.sinkID = r.sinkID ∧ r'.event = r.event) :
    Sound w' := by
  refine ⟨hw ▸ h.sinks, hw ▸ h.own, hw ▸ h.once, hw ▸ h.busy, ?_⟩
  intro k hk q hq
  rw [hw] at hk
  obtain ⟨r, hrow, hp, hid, hs, he⟩ := h.rows k hk q hq
  obtain ⟨r', hrow', hp', hid', hs', he'⟩ := hr r hrow hp
  exact ⟨r', hrow', hp', hid'.trans hid, hs'.trans hs, he'.trans he⟩

theorem Sound.worker_unique (h : Sound w) {k k' : Worker} (hk : k ∈ w.workers)
    (hk' : k' ∈ w.workers) {q q' : Queued} (hq : q ∈ k.queue) (hq' : q' ∈ k'.queue)
    (hid : q.id = q'.id) : k = k' := by
  obtain ⟨r, hr, _, hrid, hrs, _⟩ := h.rows k hk q hq
  obtain ⟨r', hr', _, hrid', hrs', _⟩ := h.rows k' hk' q' hq'
  have hrr : r = r' := w.outbox.unique hr hr' (by rw [hrid, hrid', hid])
  have hsink : k.sinkID = k'.sinkID := by
    rw [← h.own k hk q hq, ← h.own k' hk' q' hq', ← hrs, ← hrs', hrr]
  exact List.inj_on_of_nodup_map h.sinks hk hk' hsink

/-- Replacing a worker by one that holds a part of its queue. -/
theorem Sound.setWorker (h : Sound w) {k : Worker} (hk : k ∈ w.workers) (queue : List Queued)
    (sending : Bool) (hsub : queue.Sublist k.queue) (hbusy : sending = true → queue ≠ []) :
    Sound { w with workers := w.setWorker { k with queue, sending } } where
  sinks := by rw [sinks_setWorker]; exact h.sinks
  own := by
    intro x hx q hq
    rcases mem_setWorker hx with rfl | ⟨hx, _⟩
    · exact h.own k hk q (hsub.subset hq)
    · exact h.own x hx q hq
  once := by
    intro x hx
    rcases mem_setWorker hx with rfl | ⟨hx, _⟩
    · exact (h.once k hk).sublist (hsub.map _)
    · exact h.once x hx
  busy := by
    intro x hx hs
    rcases mem_setWorker hx with rfl | ⟨hx, _⟩
    · exact hbusy hs
    · exact h.busy x hx hs
  rows := by
    intro x hx q hq
    rcases mem_setWorker hx with rfl | ⟨hx, _⟩
    · exact h.rows k hk q (hsub.subset hq)
    · exact h.rows x hx q hq

theorem World.row_eq (hr : r ∈ w.outbox.rows) :
    w.row r.id = some r := by
  unfold World.row
  cases hf : w.outbox.rows.find? (fun x => x.id == r.id) with
  | none =>
      have hno := List.find?_eq_none.mp hf r hr
      exact absurd (by simp) hno
  | some x =>
      have hid : x.id = r.id := by simpa using List.find?_some hf
      rw [w.outbox.unique (List.mem_of_find?_eq_some hf) hr hid]

/-- The rows once an outcome is written: the row of the attempt changes, and no other. -/
theorem mem_record {q : Queued} {outcome : Outcome} :
    r ∈ (w.record q outcome).outbox.rows ↔
      ∃ x ∈ w.outbox.rows, Outbox.updated q.id (w.outcomeRow q outcome) x = r := by
  unfold World.record World.outcomeRow
  cases outcome with
  | sent => exact Outbox.mem_markSent
  | failed err => exact Outbox.mem_markFailed
  | unresolved => exact Outbox.mem_markFailed

theorem id_outcomeRow (w : World) (q : Queued) (outcome : Outcome) (r : Delivery) :
    (w.outcomeRow q outcome r).id = r.id := by
  cases outcome <;> rfl

@[simp] theorem nextID_record (w : World) (q : Queued) (outcome : Outcome) :
    (w.record q outcome).outbox.nextID = w.outbox.nextID := by
  cases outcome <;> rfl

theorem sound_drain {batch : List Delivery} (hb : w.outbox.isDueBatch w.clock batch = true) :
    Sound { w with workers := bySink (batch.map Delivery.queued) } := by
  simp only [Outbox.isDueBatch, Bool.and_eq_true, List.all_eq_true, decide_eq_true_eq] at hb
  obtain ⟨⟨⟨⟨hdue, hnodup⟩, _⟩, _⟩, _⟩ := hb
  have hqueue : ∀ k ∈ bySink (batch.map Delivery.queued),
      k.queue = (batch.map Delivery.queued).filter fun q => q.sinkID == k.sinkID :=
    fun k hk => (mem_bySink hk).1
  refine ⟨?_, ?_, ?_, ?_, ?_⟩
  · rw [sinks_bySink]
    exact List.nodup_dedup _
  · intro k hk q hq
    rw [hqueue k hk] at hq
    exact by simpa using (List.mem_filter.mp hq).2
  · intro k hk
    rw [hqueue k hk]
    have hids : ((batch.map Delivery.queued).map Queued.id).Nodup := by
      rw [List.map_map]
      exact hnodup
    exact hids.sublist (List.filter_sublist.map _)
  · intro k hk hs
    rw [(mem_bySink hk).2] at hs
    cases hs
  · intro k hk q hq
    rw [hqueue k hk] at hq
    obtain ⟨r, hr, rfl⟩ := List.mem_map.mp (List.mem_filter.mp hq).1
    have hrow := hdue r hr
    simp only [Outbox.due, List.contains_iff_mem, List.mem_filter, Bool.and_eq_true,
      beq_iff_eq] at hrow
    exact ⟨r, hrow.1, hrow.2.1, rfl, rfl, rfl⟩

/-- **Every step keeps the workers sound.** -/
theorem sound_step {w w' : World} {a : Act} (h : Sound w) (hs : step w a = some w') :
    Sound w' := by
  cases step_moves hs with
  | tick => exact h.of_rows rfl fun r hr hp => ⟨r, hr, hp, rfl, rfl, rfl⟩
  | enqueue groups =>
      obtain ⟨_, new, hrows, _⟩ := w.outbox.extends_enqueueRouted w.clock groups
      refine h.of_rows rfl fun r hr hp => ⟨r, ?_, hp, rfl, rfl, rfl⟩
      have hmem : r ∈ (w.outbox.enqueueRouted w.clock groups).rows := by
        rw [hrows]
        exact List.mem_append_left _ hr
      exact hmem
  | drain _ hb => exact sound_drain hb
  | @start k q rest hk _ hq =>
      have hset := h.setWorker hk k.queue true (List.Sublist.refl _) (by simp [hq])
      exact ⟨hset.sinks, hset.own, hset.once, hset.busy, hset.rows⟩
  | @finish k q rest outcome recorded hk _ hq =>
      have hset := h.setWorker hk rest false
        (by rw [hq]; exact List.sublist_cons_self q rest) (by simp)
      refine ⟨hset.sinks, hset.own, hset.once, hset.busy, ?_⟩
      intro x hx p hp
      obtain ⟨r, hr, hpend, hid, hsink, hev⟩ := hset.rows x hx p hp
      -- the row just recorded is held by nobody any more
      have hne : p.id ≠ q.id := by
        intro heq
        have honce := h.once k hk
        rw [hq] at honce
        rcases mem_setWorker hx with rfl | ⟨hx, hxs⟩
        · exact (List.nodup_cons.mp honce).1 (heq ▸ List.mem_map_of_mem hp)
        · have hkx := h.worker_unique hx hk hp (by rw [hq]; exact List.mem_cons_self) heq
          exact hxs (by rw [hkx])
      refine ⟨r, ?_, hpend, hid, hsink, hev⟩
      cases recorded with
      | true => exact mem_record.mpr ⟨r, hr, Outbox.updated_of_ne (by rw [hid]; exact hne)⟩
      | false => exact hr
  | @abandon k hk hsend =>
      exact h.setWorker hk [] k.sending (List.nil_sublist _) (by simp [hsend])
  | release => constructor <;> simp
  | retryDelivery id =>
      refine h.of_rows rfl fun r hr hp => ?_
      refine ⟨_, Outbox.mem_retryDelivery.mpr ⟨r, hr, rfl⟩, ?_⟩
      unfold Outbox.updated
      split
      · exact ⟨rfl, rfl, rfl, rfl⟩
      · exact ⟨hp, rfl, rfl, rfl⟩
  | trim => exact h.of_rows rfl fun r hr hp => ⟨r, mem_trimmed hr hp, hp, rfl, rfl, rfl⟩
  | restart => constructor <;> simp

end SnmpLens.Notify
