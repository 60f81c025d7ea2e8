import SnmpLens.Notify.Workers

/-!
# The order a destination hears an incident in

One drain runs at a time and a destination has one worker, so two sends to it are
never in progress together. That makes the order within one batch the order of
the query. It does not make the order across batches anything: a failure moves a
delivery behind later ones by its own backoff, the query may cut an incident in
two, and a retry brings an old one back. `destination_in_order` is the law with
exactly these excluded: deliveries of one incident to one destination then succeed
in the order their events were journalled.
-/

namespace SnmpLens.Notify

open Events Router Machine

/-- Two deliveries belong to one incident and go to one destination. -/
def Fellows (sink sink' : String) (e e' : Event) : Prop :=
  sink = sink' ∧ e.corrID = e'.corrID ∧ e.corrID ≠ ""

/-! ## The conditions -/

/-- Events are enqueued in journal order. -/
def InJournalOrder (w : World) : Act → Prop
  | .enqueue groups => (w.freshRows groups).Pairwise (fun a b => a.event.seq ≤ b.event.seq) ∧
      ∀ r ∈ w.freshRows groups, w.lastSeq ≤ r.event.seq
  | _ => True

instance (w : World) : (a : Act) → Decidable (InJournalOrder w a)
  | .enqueue _ => inferInstanceAs (Decidable (_ ∧ _))
  | .tick _ | .drain _ | .start _ | .finish _ _ _ | .abandon _ | .release | .retryDelivery _
  | .trim _ _ | .restart => .isTrue trivial

/--
No delivery gets behind a later one of its incident.

The query returns a delivery only behind every earlier pending one of its incident;
an attempt that leaves its delivery pending has no later one of its incident behind
it in the batch; and the operator brings no delivery back after a later one of its
incident was sent or while one is in the batch.
-/
def Unovertaken (w : World) : Act → Prop
  | .drain batch => ∀ ahead d behind, batch = ahead ++ d :: behind →
      ∀ r ∈ w.outbox.rows, r.state = .pending → Fellows r.sinkID d.sinkID r.event d.event →
        r.event.seq < d.event.seq → r ∈ ahead
  | .finish sinkID outcome recorded => ∀ k ∈ w.workers, k.sinkID = sinkID →
      ∀ q rest, k.queue = q :: rest →
        recorded = false ∨ (outcome ≠ .sent ∧ outcome.dead q.attempts = false) →
        ∀ p ∈ rest, Fellows q.sinkID p.sinkID q.event p.event → p.event.seq ≤ q.event.seq
  | .retryDelivery id => ∀ r ∈ w.outbox.rows, r.id = id → r.state ≠ .pending →
      (∀ q ∈ w.delivered, Fellows q.sinkID r.sinkID q.event r.event →
        q.event.seq ≤ r.event.seq) ∧
      ∀ k ∈ w.workers, ∀ q ∈ k.queue, Fellows q.sinkID r.sinkID q.event r.event →
        q.event.seq ≤ r.event.seq
  | _ => True

/-! ## The invariant -/

/-- Nothing pending is earlier than what was delivered, nor than what stands in front of it
in a queue. -/
structure Marching (w : World) : Prop where
  rows_le : ∀ r ∈ w.outbox.rows, r.event.seq ≤ w.lastSeq
  delivered_le : ∀ q ∈ w.delivered, q.event.seq ≤ w.lastSeq
  delivered : w.delivered.Pairwise fun a b =>
    Fellows a.sinkID b.sinkID a.event b.event → a.event.seq ≤ b.event.seq
  behind : ∀ q ∈ w.delivered, ∀ r ∈ w.outbox.rows, r.state = .pending →
    Fellows q.sinkID r.sinkID q.event r.event → q.event.seq ≤ r.event.seq
  ahead : ∀ k ∈ w.workers, ∀ front q back, k.queue = front ++ q :: back →
    ∀ r ∈ w.outbox.rows, r.state = .pending → Fellows r.sinkID q.sinkID r.event q.event →
      r.event.seq < q.event.seq → ∃ p ∈ front, p.id = r.id

theorem marching_start (clock : Nat) : Marching (World.start .empty clock) := by
  constructor <;> simp [World.start, Outbox.empty]

theorem le_foldl_max (rows : List Delivery) (m : Nat) :
    m ≤ rows.foldl (fun m r => max m r.event.seq) m ∧
      ∀ r ∈ rows, r.event.seq ≤ rows.foldl (fun m r => max m r.event.seq) m := by
  induction rows generalizing m with
  | nil => exact ⟨Nat.le_refl _, by simp⟩
  | cons x rest ih =>
      obtain ⟨h1, h2⟩ := ih (max m x.event.seq)
      refine ⟨Nat.le_trans (Nat.le_max_left _ _) h1, ?_⟩
      intro r hr
      rcases List.mem_cons.mp hr with rfl | hr
      · exact Nat.le_trans (Nat.le_max_right _ _) h1
      · exact h2 r hr

variable {w : World}

theorem mem_enqueue {groups : List RoutedGroup} {r : Delivery}
    (h : r ∈ (w.enqueue groups).outbox.rows) : r ∈ w.outbox.rows ∨ r ∈ w.freshRows groups := by
  obtain ⟨_, new, hrows, _⟩ := w.outbox.extends_enqueueRouted w.clock groups
  have hfresh : w.freshRows groups = new := by
    unfold World.freshRows
    rw [hrows, List.drop_left]
  have hr : r ∈ (w.outbox.enqueueRouted w.clock groups).rows := h
  rw [hrows] at hr
  rw [hfresh]
  exact List.mem_append.mp hr

variable {k : Worker} {q : Queued}

theorem Marching.queue_le (hs : Sound w) (hm : Marching w) (hk : k ∈ w.workers) (hq : q ∈ k.queue) :
    q.event.seq ≤ w.lastSeq := by
  obtain ⟨r, hr, _, _, _, hev⟩ := hs.rows k hk q hq
  rw [← hev]
  exact hm.rows_le r hr

theorem marching_enqueue (hs : Sound w) (hm : Marching w) {groups : List RoutedGroup}
    (hj : InJournalOrder w (.enqueue groups)) : Marching (w.enqueue groups) := by
  obtain ⟨hup, hfresh⟩ := le_foldl_max (w.freshRows groups) w.lastSeq
  refine ⟨?_, ?_, hm.delivered, ?_, ?_⟩
  · intro r hr
    rcases mem_enqueue hr with h | h
    · exact Nat.le_trans (hm.rows_le r h) hup
    · exact hfresh r h
  · intro q hq
    exact Nat.le_trans (hm.delivered_le q hq) hup
  · intro q hq r hr hp hf
    rcases mem_enqueue hr with h | h
    · exact hm.behind q hq r h hp hf
    · exact Nat.le_trans (hm.delivered_le q hq) (hj.2 r h)
  · intro k hk front q back hsplit r hr hp hf hlt
    rcases mem_enqueue hr with h | h
    · exact hm.ahead k hk front q back hsplit r h hp hf hlt
    · -- a fresh row is not earlier than anything queued
      have hq : q ∈ k.queue := by rw [hsplit]; simp
      have h1 := Marching.queue_le hs hm hk hq
      have h2 := hj.2 r h
      omega

theorem marching_drain (hm : Marching w) {batch : List Delivery} (hu : Unovertaken w (.drain batch))
    :
    Marching { w with workers := bySink (batch.map Delivery.queued) } := by
  refine ⟨hm.rows_le, hm.delivered_le, hm.delivered, hm.behind, ?_⟩
  intro k hk front q back hsplit r hr hp hf hlt
  rw [(mem_bySink hk).1, List.filter_map] at hsplit
  -- pull the split of the worker's queue back to a split of the batch
  obtain ⟨front', tail, hfilter, rfl, htail⟩ := List.map_eq_append_iff.mp hsplit
  obtain ⟨d, back', rfl, rfl, rfl⟩ := List.map_eq_cons_iff.mp htail
  obtain ⟨b1, b2, hb, hb1, hb2⟩ := List.filter_eq_append_iff.mp hfilter
  obtain ⟨c1, c2, rfl, hc1, hd, hc2⟩ := List.filter_eq_cons_iff.mp hb2
  have hmem := hu (b1 ++ c1) d c2 (by rw [hb, List.append_assoc]) r hr hp hf hlt
  have hsink : (r.queued.sinkID == k.sinkID) = true := by
    have hd' : d.queued.sinkID = k.sinkID := by simpa using hd
    have hr' : r.sinkID = d.sinkID := hf.1
    exact beq_iff_eq.mpr (hr'.trans hd')
  rcases List.mem_append.mp hmem with h | h
  · refine ⟨r.queued, List.mem_map_of_mem ?_, rfl⟩
    rw [← hb1]
    exact List.mem_filter.mpr ⟨h, hsink⟩
  · exact absurd hsink (hc1 r h)

/-- The attempt leaves its delivery pending. -/
def LeavesPending (q : Queued) (outcome : Outcome) (recorded : Bool) : Prop :=
  recorded = false ∨ (outcome ≠ .sent ∧ outcome.dead q.attempts = false)

variable {rest : List Queued} {outcome : Outcome} {recorded : Bool}

/-- A row pending after an outcome was pending before it, and is the attempted one only if
the attempt left it so. -/
theorem pending_endSend (hs : Sound w) (hk : k ∈ w.workers) (hq : q ∈ k.queue) {r : Delivery}
    (hr : r ∈ (w.endSend k q rest outcome recorded).outbox.rows) (hp : r.state = .pending) :
    ∃ x ∈ w.outbox.rows, x.state = .pending ∧ x.id = r.id ∧ x.sinkID = r.sinkID ∧
      x.event = r.event ∧ (r.id = q.id → LeavesPending q outcome recorded) := by
  cases recorded with
  | false => exact ⟨r, hr, hp, rfl, rfl, rfl, fun _ => .inl rfl⟩
  | true =>
      obtain ⟨x, hx, rfl⟩ := mem_record.mp hr
      by_cases hid : x.id = q.id
      · obtain ⟨row, hrow, hpend, hrid, _⟩ := hs.rows k hk q hq
        have hxr : x = row := w.outbox.unique hx hrow (hid.trans hrid.symm)
        rw [← hid, Outbox.updated_self] at hp ⊢
        refine ⟨x, hx, hxr ▸ hpend, (id_outcomeRow w q outcome x).symm, ?_, ?_, fun _ => .inr ?_⟩
        · cases outcome <;> rfl
        · cases outcome <;> rfl
        · cases outcome with
          | sent => exact absurd hp (by simp [World.outcomeRow, Outbox.sentRow])
          | unresolved =>
              exact absurd hp (by simp [World.outcomeRow, Outbox.failedRow, Outcome.dead])
          | failed err =>
              refine ⟨by simp, ?_⟩
              cases hd : Outcome.dead q.attempts (.failed err) with
              | false => rfl
              | true => exact absurd hp (by simp [World.outcomeRow, Outbox.failedRow, hd])
      · rw [Outbox.updated_of_ne hid] at hp ⊢
        exact ⟨x, hx, hp, rfl, rfl, rfl, fun h => absurd h hid⟩

theorem event_endSend {r : Delivery} (hr : r ∈ (w.endSend k q rest outcome recorded).outbox.rows) :
    ∃ x ∈ w.outbox.rows, x.event = r.event := by
  cases recorded with
  | false => exact ⟨r, hr, rfl⟩
  | true =>
      obtain ⟨x, hx, rfl⟩ := mem_record.mp hr
      refine ⟨x, hx, ?_⟩
      unfold Outbox.updated
      split
      · cases outcome <;> rfl
      · rfl

theorem lastSeq_endSend (w : World) (k : Worker) (q : Queued) (rest : List Queued)
    (outcome : Outcome) (recorded : Bool) :
    (w.endSend k q rest outcome recorded).lastSeq = w.lastSeq := by
  cases recorded <;> cases outcome <;> rfl

theorem mem_delivered_endSend {q p : Queued}
    (h : p ∈ (w.endSend k q rest outcome recorded).delivered) :
    p ∈ w.delivered ∨ p = q := by
  have hdel : (w.endSend k q rest outcome recorded).delivered
      = if outcome == .sent then w.delivered ++ [q] else w.delivered := rfl
  rw [hdel] at h
  split at h
  · simpa using h
  · exact .inl h

theorem marching_endSend (hs : Sound w) (hm : Marching w) (hk : k ∈ w.workers)
    (hq : k.queue = q :: rest) (hu : Unovertaken w (.finish k.sinkID outcome recorded)) :
    Marching (w.endSend k q rest outcome recorded) := by
  have hmem : q ∈ k.queue := by rw [hq]; exact List.mem_cons_self
  obtain ⟨row, hrow, hpend, hrid, hrsink, hrev⟩ := hs.rows k hk q hmem
  -- the delivery in front has no earlier pending one of its incident
  have hfirst : ∀ x ∈ w.outbox.rows, x.state = .pending →
      Fellows q.sinkID x.sinkID q.event x.event → q.event.seq ≤ x.event.seq := by
    intro x hx hp hf
    by_contra hlt
    have hf' : Fellows x.sinkID q.sinkID x.event q.event :=
      ⟨hf.1.symm, hf.2.1.symm, hf.2.1 ▸ hf.2.2⟩
    obtain ⟨p, hp', _⟩ := hm.ahead k hk [] q rest hq x hx hp hf' (Nat.lt_of_not_le hlt)
    cases hp'
  refine ⟨?_, ?_, ?_, ?_, ?_⟩
  · intro r hr
    rw [lastSeq_endSend]
    obtain ⟨x, hx, hev⟩ := event_endSend hr
    exact hev ▸ hm.rows_le x hx
  · intro p hp
    rw [lastSeq_endSend]
    rcases mem_delivered_endSend hp with hp | rfl
    · exact hm.delivered_le p hp
    · exact Marching.queue_le hs hm hk hmem
  · have hdel : (w.endSend k q rest outcome recorded).delivered
        = if outcome == .sent then w.delivered ++ [q] else w.delivered := rfl
    rw [hdel]
    split
    · refine List.pairwise_append.mpr ⟨hm.delivered, List.pairwise_singleton _ _, ?_⟩
      intro a ha b hb hf
      rw [List.mem_singleton.mp hb, ← hrsink, ← hrev] at hf
      rw [List.mem_singleton.mp hb, ← hrev]
      exact hm.behind a ha row hrow hpend hf
    · exact hm.delivered
  · intro p hp r hr hrp hf
    obtain ⟨x, hx, hxp, _, hxs, hxe, _⟩ := pending_endSend hs hk hmem hr hrp
    rw [← hxs, ← hxe] at hf
    rw [← hxe]
    rcases mem_delivered_endSend hp with hp | rfl
    · exact hm.behind p hp x hx hxp hf
    · exact hfirst x hx hxp hf
  · intro y hy front p back hsplit r hr hrp hf hlt
    obtain ⟨x, hx, hxp, hxid, hxs, hxe, hleft⟩ := pending_endSend hs hk hmem hr hrp
    rw [← hxs, ← hxe] at hf
    rw [← hxe] at hlt
    rcases mem_setWorker hy with rfl | ⟨hy, _⟩
    · have hrest : rest = front ++ p :: back := hsplit
      have hall := hm.ahead k hk (q :: front) p back (by rw [hq, hrest]; rfl) x hx hxp hf hlt
      obtain ⟨p', hp', hid⟩ := hall
      rcases List.mem_cons.mp hp' with rfl | hp'
      · -- the earlier one is the delivery just attempted, and it is still pending
        have hxr : x = row := w.outbox.unique hx hrow (hid.symm.trans hrid.symm)
        rw [hxr, hrsink, hrev] at hf
        rw [hxr, hrev] at hlt
        have hle := hu k hk rfl p' rest hq (hleft (by rw [← hxid, ← hid])) p
          (by rw [hrest]; simp) hf
        omega
      · exact ⟨p', hp', hid.trans hxid⟩
    · obtain ⟨p', hp', hid⟩ := hm.ahead y hy front p back hsplit x hx hxp hf hlt
      exact ⟨p', hp', hid.trans hxid⟩

theorem marching_retryDelivery (hm : Marching w) {id : Nat} (tries sinceRetry : Nat → Nat)
    (hu : Unovertaken w (.retryDelivery id)) :
    Marching { w with outbox := w.outbox.retryDelivery w.clock id, tries, sinceRetry } := by
  -- a pending row was pending before, or the condition speaks about it
  have hrows : ∀ r ∈ (w.outbox.retryDelivery w.clock id).rows, ∃ x ∈ w.outbox.rows,
      x.id = r.id ∧ x.sinkID = r.sinkID ∧ x.event = r.event ∧
        (r.state = .pending → x.state = .pending ∨ (x.id = id ∧ x.state ≠ .pending)) := by
    intro r hr
    obtain ⟨x, hx, rfl⟩ := Outbox.mem_retryDelivery.mp hr
    refine ⟨x, hx, ?_⟩
    by_cases hid : x.id = id
    · rw [← hid, Outbox.updated_self]
      refine ⟨rfl, rfl, rfl, fun _ => ?_⟩
      by_cases hp : x.state = .pending
      · exact .inl hp
      · exact .inr ⟨rfl, hp⟩
    · rw [Outbox.updated_of_ne hid]
      exact ⟨rfl, rfl, rfl, .inl⟩
  refine ⟨?_, hm.delivered_le, hm.delivered, ?_, ?_⟩
  · intro r hr
    obtain ⟨x, hx, _, _, hev, _⟩ := hrows r hr
    exact hev ▸ hm.rows_le x hx
  · intro q hq r hr hp hf
    obtain ⟨x, hx, _, hsink, hev, hst⟩ := hrows r hr
    rw [← hsink, ← hev] at hf
    rw [← hev]
    rcases hst hp with hxp | ⟨hid, hxp⟩
    · exact hm.behind q hq x hx hxp hf
    · exact (hu x hx hid hxp).1 q hq hf
  · intro k hk front q back hsplit r hr hp hf hlt
    obtain ⟨x, hx, hxid, hsink, hev, hst⟩ := hrows r hr
    rw [← hsink, ← hev] at hf
    rw [← hev] at hlt
    rcases hst hp with hxp | ⟨hid, hxp⟩
    · obtain ⟨p, hp', hpid⟩ := hm.ahead k hk front q back hsplit x hx hxp hf hlt
      exact ⟨p, hp', hpid.trans hxid⟩
    · have hle := (hu x hx hid hxp).2 k hk q (by rw [hsplit]; simp)
        ⟨hf.1.symm, hf.2.1.symm, hf.2.1 ▸ hf.2.2⟩
      omega

/-- **Steps that let nothing overtake keep the march.** -/
theorem marching_step {w w' : World} {a : Act} (hs : Sound w) (hm : Marching w)
    (hj : InJournalOrder w a) (hu : Unovertaken w a) (h : step w a = some w') : Marching w' := by
  cases step_moves h with
  | tick => exact ⟨hm.rows_le, hm.delivered_le, hm.delivered, hm.behind, hm.ahead⟩
  | enqueue groups => exact marching_enqueue hs hm hj
  | drain _ _ => exact marching_drain hm hu
  | @start k q rest hk _ _ =>
      refine ⟨hm.rows_le, hm.delivered_le, hm.delivered, hm.behind, ?_⟩
      intro x hx front p back hsplit
      rcases mem_setWorker hx with rfl | ⟨hx, _⟩
      · exact hm.ahead k hk front p back hsplit
      · exact hm.ahead x hx front p back hsplit
  | finish hk _ hq => exact marching_endSend hs hm hk hq hu
  | @abandon k hk _ =>
      refine ⟨hm.rows_le, hm.delivered_le, hm.delivered, hm.behind, ?_⟩
      intro x hx front p back hsplit
      rcases mem_setWorker hx with rfl | ⟨hx, _⟩
      · exact absurd hsplit (by simp)
      · exact hm.ahead x hx front p back hsplit
  | release => exact ⟨hm.rows_le, hm.delivered_le, hm.delivered, hm.behind, by simp⟩
  | retryDelivery id =>
      have hr := marching_retryDelivery hm w.tries w.sinceRetry hu
      exact ⟨hr.rows_le, hr.delivered_le, hr.delivered, hr.behind, hr.ahead⟩
  | trim =>
      refine ⟨?_, hm.delivered_le, hm.delivered, ?_, ?_⟩
      · exact fun r hr => hm.rows_le r (trimmed_subset hr)
      · exact fun q hq r hr => hm.behind q hq r (trimmed_subset hr)
      · exact fun k hk front q back hsplit r hr => hm.ahead k hk front q back hsplit r (trimmed_subset hr)
  | restart => exact ⟨hm.rows_le, hm.delivered_le, hm.delivered, hm.behind, by simp⟩

/-! ## The law -/

/-- What a destination sees: one send at a time, and the deliveries of an incident in the
order their events were journalled. -/
structure InOrder (w : World) : Prop where
  single : ∀ sinkID, (w.workers.filter fun k => k.sinkID == sinkID && k.sending).length ≤ 1
  ordered : w.delivered.Pairwise fun a b =>
    Fellows a.sinkID b.sinkID a.event b.event → a.event.seq ≤ b.event.seq

/-- A destination has one worker, so at most one send to it is in progress. -/
theorem single_of_sound (hs : Sound w) (sinkID : String) :
    (w.workers.filter fun k => k.sinkID == sinkID && k.sending).length ≤ 1 := by
  have hsub : (w.workers.filter fun k => k.sinkID == sinkID && k.sending).length
      ≤ (w.workers.filter fun k => k.sinkID == sinkID).length := by
    refine List.Sublist.length_le (List.monotone_filter_right _ ?_)
    intro k hk
    exact (Bool.and_eq_true_iff.mp hk).1
  have hcount : (w.workers.filter fun k => k.sinkID == sinkID).length
      = (w.workers.map Worker.sinkID).count sinkID := by
    rw [← List.countP_eq_length_filter, List.count, List.countP_map]
    rfl
  rw [hcount] at hsub
  exact Nat.le_trans hsub (List.nodup_iff_count_le_one.mp hs.sinks sinkID)

/--
**A destination hears an incident in order, as long as no delivery gets behind a later one.**

For every run with enqueues in journal order, every pattern of failures, retries,
trims and restarts.
-/
theorem destination_in_order {clock : Nat} {acts : List Act} {w : World}
    (h : Run step (fun w a => InJournalOrder w a ∧ Unovertaken w a) (World.start .empty clock)
      acts w) : InOrder w := by
  have hinv : Sound w ∧ Marching w :=
    h.invariant (I := fun w => Sound w ∧ Marching w) ⟨sound_start _ _, marching_start clock⟩
      fun _ _ _ hi hok hs => ⟨sound_step hi.1 hs, marching_step hi.1 hi.2 hok.1 hok.2 hs⟩
  exact ⟨single_of_sound hinv.1, hinv.2.delivered⟩

/-! ### An incident of two notices -/

/-- The notice that opens an incident, and the one that closes it. -/
def notice (seq : Nat) (id kind : String) : RoutedGroup where
  event := { id, seq, corrID := "c", kind }
  sinkIDs := ["noc"]

def opened : RoutedGroup := notice 1 "a" kindThresholdOpened
def resolved : RoutedGroup := notice 2 "b" kindThresholdResolved

/-- A notice's row. -/
def noticeRow (g : RoutedGroup) (attempts nextTry : Nat) (lastError : Option String) :
    Delivery where
  id := g.event.seq
  eventID := g.event.id
  sinkID := "noc"
  event := g.event
  subject := ""
  body := ""
  attempts := attempts
  nextTry := nextTry
  lastError := lastError
  state := .pending
  createdAt := 0

/-- The opening is sent, then the resolution, each in a drain of its own. -/
def oneByOne : List Act :=
  [.enqueue [opened], .drain [noticeRow opened 0 0 none], .start "noc",
    .finish "noc" .sent true, .release, .enqueue [resolved],
    .drain [noticeRow resolved 0 0 none], .start "noc", .finish "noc" .sent true, .release]

/-- A drain of one row that is the only pending one, an attempt with nothing behind it,
an enqueue of one later row. -/
def calm (w : World) : Act → Bool
  | .enqueue groups =>
      (w.freshRows groups).length == 1 && (w.freshRows groups).all fun r => w.lastSeq ≤ r.event.seq
  | .drain batch => w.outbox.rows.all fun r => r.state != .pending || batch == [r]
  | .finish _ _ _ => w.workers.all fun k => k.queue.length == 1
  | .retryDelivery _ => false
  | _ => true

theorem calm_sound (w : World) (a : Act) (h : calm w a = true) :
    InJournalOrder w a ∧ Unovertaken w a := by
  cases a with
  | enqueue groups =>
      simp only [calm, Bool.and_eq_true, beq_iff_eq, List.all_eq_true, decide_eq_true_eq] at h
      obtain ⟨hone, hle⟩ := h
      obtain ⟨r, hr⟩ := List.length_eq_one_iff.mp hone
      refine ⟨⟨?_, hle⟩, trivial⟩
      rw [hr]
      exact List.pairwise_singleton _ _
  | drain batch =>
      refine ⟨trivial, ?_⟩
      intro ahead d behind hsplit r hr hp _ hlt
      have hb := List.all_eq_true.mp h r hr
      simp only [hp, bne_self_eq_false, Bool.false_or, beq_iff_eq] at hb
      rw [hb] at hsplit
      have hd : d ∈ [r] := by rw [hsplit]; simp
      rw [List.mem_singleton.mp hd] at hlt
      exact absurd hlt (Nat.lt_irrefl _)
  | finish sinkID outcome recorded =>
      refine ⟨trivial, ?_⟩
      intro k hk _ q rest hq _ p hp
      have hlen := List.all_eq_true.mp h k hk
      rw [hq] at hlen
      have hnil : rest = [] := by simpa using hlen
      rw [hnil] at hp
      cases hp
  | retryDelivery id => exact absurd h (by simp [calm])
  | _ => exact ⟨trivial, trivial⟩

theorem destination_in_order_oneByOne :
    ∃ w, Run step (fun w a => InJournalOrder w a ∧ Unovertaken w a) (World.start .empty 0)
        oneByOne w ∧ w.delivered.length = 2 ∧ InOrder w := by
  have hend : (exec (checked step calm) (World.start .empty 0) oneByOne).map
      (fun w => w.delivered.length) = some 2 := by decide
  obtain ⟨w, hw, hlen⟩ := Option.map_eq_some_iff.mp hend
  have hrun := run_of_checked calm_sound hw
  exact ⟨w, hrun, hlen, destination_in_order hrun⟩

/-- Both notices are in one drain; the opening times out and the resolution is sent. The
opening is sent after its backoff. -/
def openedAfterResolved : List Act :=
  [.enqueue [opened], .enqueue [resolved],
    .drain [noticeRow opened 0 0 none, noticeRow resolved 0 0 none],
    .start "noc", .finish "noc" (.failed (.net "timeout")) true,
    .start "noc", .finish "noc" .sent true, .release, .tick 15,
    .drain [noticeRow opened 1 15 (some "timeout")], .start "noc", .finish "noc" .sent true]

/-- **The claim without the condition fails.** The destination is given the opening after
the resolution. -/
theorem opened_after_resolved :
    ¬ ∀ (acts : List Act) (w : World),
        Run step (fun w a => InJournalOrder w a) (World.start .empty 0) acts w → InOrder w := by
  intro hall
  have hend : (exec (checked step fun w a => decide (InJournalOrder w a)) (World.start .empty 0)
      openedAfterResolved).map (fun w => w.delivered.map fun q => (q.sinkID, q.event))
        = some [("noc", resolved.event), ("noc", opened.event)] := by decide
  obtain ⟨w, hw, hdel⟩ := Option.map_eq_some_iff.mp hend
  have hrun := run_of_checked (fun _ _ h => of_decide_eq_true h) hw
  obtain ⟨first, tail, hsplit, hfirst, htail⟩ := List.map_eq_cons_iff.mp hdel
  obtain ⟨second, _, rfl, hsecond, _⟩ := List.map_eq_cons_iff.mp htail
  simp only [Prod.mk.injEq] at hfirst hsecond
  have hord := (hall _ w hrun).ordered
  rw [hsplit] at hord
  have hle := (List.pairwise_cons.mp hord).1 second List.mem_cons_self
  unfold Fellows at hle
  rw [hfirst.1, hfirst.2, hsecond.1, hsecond.2] at hle
  exact absurd (hle ⟨rfl, rfl, by decide⟩) (by decide)

end SnmpLens.Notify
