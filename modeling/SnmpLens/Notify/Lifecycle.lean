import SnmpLens.Notify.Tally

/-!
# The life of a delivery

A row is pending until an attempt settles it, and settled rows are left alone —
by everything except `RetryDelivery`, whose `UPDATE` has no `state = 'dead'` in
its guard. As long as the operator only retries dead rows, and every attempt that
was made is recorded, a sent row stays sent and is never sent again, and no row
is attempted more than `maxAttempts` times between entering `pending` and being
dead. What the trims may take needs no condition.
-/

namespace SnmpLens.Notify

open Events Router Machine

/-! ## What the trims may take -/

/-- One of the newest `maxDeadLetters` dead rows. -/
def NewestDead (ob : Outbox) (r : Delivery) : Prop :=
  r.state = .dead ∧ (ob.rows.filter fun x => x.state == .dead && r.id < x.id).length < maxDeadLetters

/-- In an ascending list, the rows behind position `i` are those of a larger id. -/
theorem filter_newer {rows : List Delivery} (h : rows.Pairwise fun a b => a.id < b.id) {i : Nat}
    {r : Delivery} (hr : rows[i]? = some r) :
    rows.filter (fun x => r.id < x.id) = rows.drop (i + 1) := by
  induction rows generalizing i with
  | nil => simp at hr
  | cons x rest ih =>
      obtain ⟨hx, hrest⟩ := List.pairwise_cons.mp h
      cases i with
      | zero =>
          obtain rfl : x = r := by simpa using hr
          have hall : rest.filter (fun y => x.id < y.id) = rest :=
            List.filter_eq_self.mpr fun y hy => by simpa using hx y hy
          simp [hall]
      | succ i =>
          have hr' : rest[i]? = some r := by simpa using hr
          have hlt := hx r (List.mem_of_getElem? hr')
          rw [List.filter_cons_of_neg (by simpa using Nat.le_of_lt hlt), ih hrest hr']
          rfl

/-- **`TrimDeadLetters` never removes one of the newest dead rows.** -/
theorem newestDead_trimDeadLetters {ob : Outbox} {r : Delivery} (hr : r ∈ ob.rows)
    (hn : NewestDead ob r) : r ∈ (ob.trimDeadLetters maxDeadLetters).rows := by
  unfold Outbox.trimDeadLetters
  split
  · exact hr
  · rename_i bound hb
    refine Outbox.mem_delete.mpr ⟨hr, ?_⟩
    obtain ⟨hdead, hcount⟩ := hn
    by_contra hgone
    have hle : r.id ≤ bound.id := by
      simp only [Bool.not_eq_false, Bool.and_eq_true, decide_eq_true_eq] at hgone
      exact hgone.2
    -- `bound` has exactly `maxDeadLetters` dead rows above it, and `r` is not above `bound`
    have hlen : maxDeadLetters < ob.deadRows.length := by
      have h1 := (List.getElem?_eq_some_iff.mp hb).1
      simpa using h1
    have hget : ob.deadRows[ob.deadRows.length - 1 - maxDeadLetters]? = some bound := by
      rw [List.getElem?_reverse hlen] at hb
      exact hb
    have hnewer := filter_newer (ob.ascending.filter _) hget
    have hcount' : (ob.deadRows.filter fun x => bound.id < x.id).length = maxDeadLetters := by
      unfold Outbox.deadRows at hnewer hlen ⊢
      rw [hnewer, List.length_drop]
      omega
    have hsub : (ob.deadRows.filter fun x => bound.id < x.id).length
        ≤ (ob.rows.filter fun x => x.state == .dead && r.id < x.id).length := by
      unfold Outbox.deadRows
      rw [List.filter_filter]
      refine List.Sublist.length_le (List.monotone_filter_right _ ?_)
      intro x hx
      simp only [Bool.and_eq_true, decide_eq_true_eq] at hx ⊢
      exact ⟨hx.2, Nat.lt_of_le_of_lt hle hx.1⟩
    omega

/-! ## The conditions -/

/-- The operator retries dead rows only, and no attempt goes unrecorded. -/
def Recorded (w : World) : Act → Prop
  | .retryDelivery id => ∀ r ∈ w.outbox.rows, r.id = id → r.state = .dead
  | .finish _ _ recorded => recorded = true
  | .restart => ∀ k ∈ w.workers, k.sending = false
  | _ => True

/-- How the histories and the `attempts` column agree. -/
structure Counted (w : World) : Prop where
  sent : ∀ r ∈ w.outbox.rows, r.id ∈ w.everSent → r.state = .sent
  everSent_lt : ∀ id ∈ w.everSent, id < w.outbox.nextID
  resent : w.resent = []
  fresh : ∀ id, w.outbox.nextID ≤ id → w.tries id = 0
  bound : ∀ id, w.tries id ≤ maxAttempts
  spent : ∀ r ∈ w.outbox.rows, r.state = .pending → r.attempts < maxAttempts
  idle : ∀ r ∈ w.outbox.rows, r.state = .pending → ¬ Flying w.workers r.id → w.tries r.id = r.attempts
  flying : ∀ r ∈ w.outbox.rows, r.state = .pending → Flying w.workers r.id → w.tries r.id = r.attempts + 1
  queued : ∀ k ∈ w.workers, ∀ q ∈ k.queue, ∀ r ∈ w.outbox.rows, r.id = q.id →
    r.attempts = q.attempts

theorem counted_start (clock : Nat) : Counted (World.start .empty clock) := by
  constructor <;> simp [World.start, Outbox.empty]

/-! ## The steps -/

variable {w : World}

theorem Counted.tallied (hc : Counted w) : Tallied w.outbox w.workers w.tries :=
  ⟨hc.fresh, hc.spent, hc.idle, hc.flying, hc.queued⟩

theorem counted_enqueue (hs : Sound w) (hc : Counted w) (groups : List RoutedGroup) :
    Counted (w.enqueue groups) := by
  obtain ⟨hle, new, hrows, hnew⟩ := w.outbox.extends_enqueueRouted w.clock groups
  have ht := tallied_enqueue hs hc.tallied groups
  refine ⟨?_, ?_, hc.resent, ht.fresh, hc.bound, ht.spent, ht.idle, ht.flying, ht.queued⟩
  · intro r hr hid
    have hr : r ∈ (w.outbox.enqueueRouted w.clock groups).rows := hr
    rw [hrows] at hr
    rcases List.mem_append.mp hr with h | h
    · exact hc.sent r h hid
    · have hlt := hc.everSent_lt _ hid
      have hge := (hnew r h).1
      omega
  · intro id hid
    exact Nat.lt_of_lt_of_le (hc.everSent_lt id hid) hle

theorem counted_drain {batch : List Delivery} (hc : Counted w) (hw : w.workers = [])
    (hb : w.outbox.isDueBatch w.clock batch = true) :
    Counted { w with workers := bySink (batch.map Delivery.queued) } := by
  have ht := tallied_drain hc.tallied hw hb
  exact ⟨hc.sent, hc.everSent_lt, hc.resent, ht.fresh, hc.bound, ht.spent, ht.idle, ht.flying,
    ht.queued⟩

theorem counted_startSend (hs : Sound w) (hc : Counted w) {k : Worker} {q : Queued}
    {rest : List Queued} (hk : k ∈ w.workers) (hsend : k.sending = false) (hq : k.queue = q :: rest)
    : Counted (w.startSend k q) := by
  have hmem : q ∈ k.queue := by rw [hq]; exact List.mem_cons_self
  obtain ⟨row, hrow, hpend, hrid, _⟩ := hs.rows k hk q hmem
  have hnofly : ¬ Flying w.workers row.id := hrid ▸ not_flying_of_front hs hk hmem hsend
  have hnot : q.id ∉ w.everSent := by
    intro hin
    have hsent := hc.sent row hrow (hrid ▸ hin)
    rw [hpend] at hsent
    cases hsent
  have ht := tallied_startSend hs hc.tallied hk hsend hq
  refine ⟨hc.sent, hc.everSent_lt, ?_, ht.fresh, ?_, ht.spent, ht.idle, ht.flying, ht.queued⟩
  · have hresent : (w.startSend k q).resent = w.resent := if_neg (by simpa using hnot)
    rw [hresent]
    exact hc.resent
  · intro id
    by_cases hid : id = q.id
    · have hlt := hc.spent row hrow hpend
      have hidle := hc.idle row hrow hpend hnofly
      have hself : (w.startSend k q).tries id = w.tries row.id + 1 := by
        rw [hid, hrid]
        exact bump_self w.tries q.id
      omega
    · exact Nat.le_trans (Nat.le_of_eq (bump_of_ne w.tries hid)) (hc.bound id)

theorem mem_everSent_record {q : Queued} {outcome : Outcome} {row : Delivery}
    (hrow : row ∈ w.outbox.rows) (hid : row.id = q.id) {id : Nat} :
    id ∈ (w.record q outcome).everSent ↔ id ∈ w.everSent ∨ (outcome = .sent ∧ id = q.id) := by
  cases outcome with
  | sent =>
      have hfound : w.row q.id = some row := hid ▸ World.row_eq hrow
      simp [World.record, hfound, hid]
  | failed err => simp [World.record]
  | unresolved => simp [World.record]

theorem endSend_frame (w : World) (k : Worker) (q : Queued) (rest : List Queued)
    (outcome : Outcome) :
    (w.endSend k q rest outcome true).tries = w.tries
      ∧ (w.endSend k q rest outcome true).resent = w.resent
      ∧ (w.endSend k q rest outcome true).outbox.nextID = w.outbox.nextID := by
  cases outcome <;> exact ⟨rfl, rfl, rfl⟩

theorem counted_endSend (hs : Sound w) (hc : Counted w) {k : Worker} {q : Queued}
    {rest : List Queued} {outcome : Outcome} (hk : k ∈ w.workers) (hsend : k.sending = true)
    (hq : k.queue = q :: rest) : Counted (w.endSend k q rest outcome true) := by
  obtain ⟨row, hrow, hpend, hrid, _⟩ := hc.tallied.sending hs hk hsend hq
  have hnot : q.id ∉ w.everSent := by
    intro hin
    have hsent := hc.sent row hrow (hrid ▸ hin)
    rw [hpend] at hsent
    cases hsent
  have hrows := @rows_record _ _ outcome _ hrow hrid
  have hever := @mem_everSent_record w q outcome row hrow hrid
  obtain ⟨htr, hresent, hnext⟩ := endSend_frame w k q rest outcome
  have ht := tallied_endSend hs hc.tallied outcome hk hsend hq
  rw [← htr] at ht
  refine ⟨?_, ?_, ?_, ht.fresh, ?_, ht.spent, ht.idle, ht.flying, ht.queued⟩
  · intro r hr hin
    rcases hrows r hr with ⟨rfl, hid⟩ | ⟨hr, hid⟩
    · rcases hever.mp hin with hold | ⟨rfl, _⟩
      · exact absurd (hid ▸ hold) hnot
      · rfl
    · rcases hever.mp hin with hold | ⟨_, heq⟩
      · exact hc.sent r hr hold
      · exact absurd heq hid
  · intro id hin
    rw [hnext]
    rcases hever.mp hin with hold | ⟨_, rfl⟩
    · exact hc.everSent_lt id hold
    · exact hrid ▸ w.outbox.below row hrow
  · rw [hresent]
    exact hc.resent
  · rw [htr]
    exact hc.bound

theorem counted_abandon (hs : Sound w) (hc : Counted w) {k : Worker} (hk : k ∈ w.workers)
    (hsend : k.sending = false) :
    Counted { w with workers := w.setWorker { k with queue := [] } } := by
  have ht := tallied_abandon hs hc.tallied hk hsend
  exact ⟨hc.sent, hc.everSent_lt, hc.resent, ht.fresh, hc.bound, ht.spent, ht.idle, ht.flying,
    ht.queued⟩

theorem counted_noWorkers (hc : Counted w) (hnf : ∀ id, ¬ Flying w.workers id)
    (writes trimsOwed : Nat) : Counted { w with writes, trimsOwed, workers := [] } := by
  have ht := tallied_noWorkers hc.tallied hnf
  exact ⟨hc.sent, hc.everSent_lt, hc.resent, ht.fresh, hc.bound, ht.spent, ht.idle, ht.flying,
    ht.queued⟩

theorem counted_retryDelivery (hs : Sound w) (hc : Counted w) {id : Nat}
    (hdead : ∀ r ∈ w.outbox.rows, r.id = id → r.state = .dead) :
    Counted { w with
      outbox := w.outbox.retryDelivery w.clock id
      tries :=
        if w.outbox.rows.any (fun r => r.id == id && r.state != .pending)
        then reset w.tries id else w.tries
      sinceRetry := reset w.sinceRetry id } := by
  have hfree : ∀ k ∈ w.workers, ∀ q ∈ k.queue, q.id ≠ id := by
    intro k hk q hq heq
    obtain ⟨r, hr, hp, hid, _⟩ := hs.rows k hk q hq
    rw [hdead r hr (hid.trans heq)] at hp
    cases hp
  have hle : ∀ i, (if w.outbox.rows.any (fun r => r.id == id && r.state != .pending)
      then reset w.tries id else w.tries) i ≤ w.tries i := by
    intro i
    split
    · unfold reset
      split
      · exact Nat.zero_le _
      · exact Nat.le_refl _
    · exact Nat.le_refl _
  have hother : ∀ i, i ≠ id → (if w.outbox.rows.any (fun r => r.id == id && r.state != .pending)
      then reset w.tries id else w.tries) i = w.tries i := by
    intro i hi
    split
    · simp [reset, hi]
    · rfl
  have hzero : ∀ x ∈ w.outbox.rows, x.id = id →
      (if w.outbox.rows.any (fun r => r.id == id && r.state != .pending)
        then reset w.tries id else w.tries) id = 0 := by
    intro x hx hid
    have hany : w.outbox.rows.any (fun r => r.id == id && r.state != .pending) = true := by
      refine List.any_eq_true.mpr ⟨x, hx, ?_⟩
      simp [hid, hdead x hx hid]
    rw [if_pos hany]
    simp [reset]
  have ht := tallied_retryDelivery hc.tallied hfree hle hother hzero
  refine ⟨?_, hc.everSent_lt, hc.resent, ht.fresh, ?_, ht.spent, ht.idle, ht.flying, ht.queued⟩
  · intro r hr hin
    obtain ⟨x, hx, rfl⟩ := Outbox.mem_retryDelivery.mp hr
    by_cases hid : x.id = id
    · -- a dead row has never been sent
      have hkeep : ∀ y, (Outbox.retriedRow w.clock y).id = y.id := fun _ => rfl
      rw [Outbox.id_updated hkeep] at hin
      have hsent := hc.sent x hx hin
      rw [hdead x hx hid] at hsent
      cases hsent
    · rw [Outbox.updated_of_ne hid] at hin ⊢
      exact hc.sent x hx hin
  · intro i
    exact Nat.le_trans (hle i) (hc.bound i)

/-- **Recorded steps keep the count.** -/
theorem counted_step {w w' : World} {a : Act} (hs : Sound w) (hc : Counted w)
    (hok : Recorded w a) (h : step w a = some w') : Counted w' := by
  cases step_moves h with
  | tick => exact ⟨hc.sent, hc.everSent_lt, hc.resent, hc.fresh, hc.bound, hc.spent, hc.idle,
      hc.flying, hc.queued⟩
  | enqueue groups => exact counted_enqueue hs hc groups
  | drain hw hb => exact counted_drain hc hw hb
  | start hk hsend hq => exact counted_startSend hs hc hk hsend hq
  | finish hk hsend hq =>
      obtain rfl := hok
      exact counted_endSend hs hc hk hsend hq
  | abandon hk hsend => exact counted_abandon hs hc hk hsend
  | release hall => exact counted_noWorkers hc (not_flying_release hall) w.writes w.trimsOwed
  | retryDelivery id => exact counted_retryDelivery hs hc hok
  | trim =>
      have ht := tallied_trimmed hc.tallied w.clock
      refine ⟨?_, ?_, hc.resent, (ht _ _).fresh, hc.bound, (ht _ _).spent, (ht _ _).idle,
        (ht _ _).flying, (ht _ _).queued⟩
      · exact fun r hr => hc.sent r (trimmed_subset hr)
      · exact fun id hin => (nextID_trimmed _ _ _ _).symm ▸ hc.everSent_lt id hin
  | restart => exact counted_noWorkers hc (not_flying_restart hok) 0 0

/-! ## The law -/

/-- What the history says of every row: what was sent stays sent and is sent once, and no
row is attempted too often. -/
structure Lifecycle (w : World) : Prop where
  sent : ∀ r ∈ w.outbox.rows, r.id ∈ w.everSent → r.state = .sent
  resent : w.resent = []
  attempts : ∀ id, w.tries id ≤ maxAttempts

/-- What a step leaves alone: a retry every row that is not dead, a trim every pending row
and the newest dead ones. -/
def Respects (w : World) (a : Act) (w' : World) : Prop :=
  (∀ id, a = .retryDelivery id → ∀ r ∈ w.outbox.rows, r.state ≠ .dead → r ∈ w'.outbox.rows) ∧
  (∀ outbox dead, a = .trim outbox dead → ∀ r ∈ w.outbox.rows,
    r.state = .pending ∨ NewestDead w.outbox r → r ∈ w'.outbox.rows)

theorem newestDead_trimOutbox {ob : Outbox} {now : Nat} {r : Delivery} (h : NewestDead ob r) :
    NewestDead (ob.trimOutbox now) r := by
  refine ⟨h.1, Nat.lt_of_le_of_lt (List.Sublist.length_le ?_) h.2⟩
  exact List.filter_sublist.filter _

/-- A trim keeps the pending rows and the newest dead ones, whatever else it takes. -/
theorem trimmed_keeps {ob : Outbox} {now : Nat} {outbox dead : Bool} {r : Delivery}
    (hr : r ∈ ob.rows) (h : r.state = .pending ∨ NewestDead ob r) :
    r ∈ (trimmed ob now outbox dead).rows := by
  rcases h with hp | hn
  · exact mem_trimmed hr hp
  · have h1 : r ∈ (if outbox then ob.trimOutbox now else ob).rows := by
      split
      · exact Outbox.mem_trimOutbox hr (by simp [hn.1])
      · exact hr
    have h2 : NewestDead (if outbox then ob.trimOutbox now else ob) r := by
      split
      · exact newestDead_trimOutbox hn
      · exact hn
    unfold trimmed
    dsimp only
    split
    · exact newestDead_trimDeadLetters h1 h2
    · exact h1

theorem respects_step {w w' : World} {a : Act} (hok : Recorded w a) (h : step w a = some w') :
    Respects w a w' := by
  refine ⟨?_, ?_⟩
  · rintro id rfl r hr hne
    obtain rfl := Option.some.inj h
    refine Outbox.mem_retryDelivery.mpr ⟨r, hr, Outbox.updated_of_ne ?_⟩
    intro hid
    exact hne (hok r hr hid)
  · rintro outbox dead rfl r hr hkeep
    cases step_moves h with
    | trim => exact trimmed_keeps hr hkeep

/--
**The life of a delivery, as long as only dead rows are retried and every attempt is recorded.**

In every such run a row that reached `sent` is never pending again and never sent a
second time, a retry changes dead rows only, no row is attempted more than
`maxAttempts` times between entering `pending` and being dead, and no trim removes
a pending row or one of the newest dead ones.
-/
theorem outbox_lifecycle {clock : Nat} {acts : List Act} {w : World}
    (h : Run step Recorded (World.start .empty clock) acts w) :
    Lifecycle w ∧ ∀ a w', Recorded w a → step w a = some w' → Respects w a w' := by
  have hinv : Sound w ∧ Counted w :=
    h.invariant (I := fun w => Sound w ∧ Counted w) ⟨sound_start _ _, counted_start clock⟩
      fun _ _ _ hi hok hs => ⟨sound_step hi.1 hs, counted_step hi.1 hi.2 hok hs⟩
  exact ⟨⟨hinv.2.sent, hinv.2.resent, hinv.2.bound⟩, fun _ _ hok hs => respects_step hok hs⟩

/-! ### A delivery that fails once -/

/-- One event for one destination. -/
def alert : RoutedGroup where
  event := { id := "a", seq := 1, corrID := "c", kind := kindThresholdOpened }
  sinkIDs := ["noc"]

/-- Its row, as the due query returns it. -/
def alertRow (attempts nextTry : Nat) (lastError : Option String) : Delivery where
  id := 1
  eventID := "a"
  sinkID := "noc"
  event := alert.event
  subject := ""
  body := ""
  attempts := attempts
  nextTry := nextTry
  lastError := lastError
  state := .pending
  createdAt := 0

/-- Refused once, retried after its backoff, and sent. -/
def secondAttempt : List Act :=
  [.enqueue [alert], .drain [alertRow 0 0 none], .start "noc",
    .finish "noc" (.failed (.net "timeout")) true, .release, .tick 15,
    .drain [alertRow 1 15 (some "timeout")], .start "noc", .finish "noc" .sent true, .release]

/-- `Recorded`, computed. -/
def recorded (w : World) : Act → Bool
  | .retryDelivery id => w.outbox.rows.all fun r => r.id != id || r.state == .dead
  | .finish _ _ recorded => recorded
  | .restart => w.workers.all fun k => !k.sending
  | _ => true

theorem recorded_sound (w : World) (a : Act) (h : recorded w a = true) : Recorded w a := by
  cases a with
  | retryDelivery id =>
      intro r hr hid
      have hr' := List.all_eq_true.mp h r hr
      simpa [hid] using hr'
  | finish sinkID outcome recorded => exact h
  | restart =>
      intro k hk
      simpa using List.all_eq_true.mp h k hk
  | _ => trivial

theorem outbox_lifecycle_secondAttempt :
    ∃ w, Run step Recorded (World.start .empty 0) secondAttempt w ∧
      w.everSent = [1] ∧ w.tries 1 = 2 ∧ Lifecycle w := by
  have hend : (exec (checked step recorded) (World.start .empty 0) secondAttempt).map
      (fun w => (w.everSent, w.tries 1)) = some ([1], 2) := by decide
  obtain ⟨w, hw, heq⟩ := Option.map_eq_some_iff.mp hend
  obtain ⟨hsent, htries⟩ := Prod.mk.inj heq
  have hrun := run_of_checked recorded_sound hw
  exact ⟨w, hrun, hsent, htries, (outbox_lifecycle hrun).1⟩

/-- **What workers hold is pending**: in every run, with rows that are retried, outcomes that are not
recorded and processes that end, a destination has one worker at most, and each row it holds is held
once and is a pending one of that destination. -/
theorem workers_hold_pending {outbox : Outbox} {clock : Nat} {acts : List Act} {w : World}
    (h : Run step (fun _ _ => True) (World.start outbox clock) acts w) : Sound w :=
  h.invariant (sound_start outbox clock) fun _ _ _ hi _ hs => sound_step hi hs

theorem workers_hold_pending_sending :
    ∃ w, Run step (fun _ _ => True) (World.start .empty 0) (secondAttempt.take 3) w ∧ Sound w := by
  have hend : (exec step (World.start .empty 0) (secondAttempt.take 3)).isSome = true := by decide
  obtain ⟨w, hw⟩ := Option.isSome_iff_exists.mp hend
  exact ⟨w, run_of_exec hw, workers_hold_pending (run_of_exec hw)⟩

/-! ### A retry of a delivery that was sent -/

/-- The operator retries a row that reached `sent`. -/
def retrySent : List Act :=
  [.enqueue [alert], .drain [alertRow 0 0 none], .start "noc", .finish "noc" .sent true,
    .release, .retryDelivery 1]

/-- **The claim without the guard fails.** The retried row is pending again. -/
theorem retry_revives_sent :
    ¬ ∀ (acts : List Act) (w : World),
        Run step (fun _ _ => True) (World.start .empty 0) acts w → Lifecycle w := by
  intro hall
  have hend : (exec step (World.start .empty 0) retrySent).map
      (fun w => w.outbox.rows.all fun r => !w.everSent.contains r.id || r.state == .sent)
        = some false := by decide
  obtain ⟨w, hw, hbad⟩ := Option.map_eq_some_iff.mp hend
  have hlife := hall _ w (run_of_exec hw)
  have hgood : (w.outbox.rows.all fun r => !w.everSent.contains r.id || r.state == .sent)
      = true := by
    refine List.all_eq_true.mpr fun r hr => ?_
    by_cases hin : r.id ∈ w.everSent
    · simp [hlife.sent r hr hin]
    · simp [hin]
  rw [hgood] at hbad
  cases hbad

end SnmpLens.Notify
