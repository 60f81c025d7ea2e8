import SnmpLens.Router.Watermark

/-!
# Events the router refused

`accept` takes a refused event back out of flight before its producer has routed
it, so from then on nothing but the guard stands between the watermark and it.
While the guard holds, an event this run refused is above the stored watermark
until its deliveries are written, and the next start replays it. Without it, the
next flush of anything that was accepted passes it: `fill` fills the queue behind
an event that is then refused and cannot be routed inline.
-/

namespace SnmpLens.Router

open Events Machine

variable {groupsFor : Event → List RoutedGroup}

/-! ## Refused events are this run's -/

/-- Everything in the process and everything it refused was journalled at or above `n`. -/
structure Since (n : Nat) (w : World) : Prop where
  next : n ≤ w.db.nextSeq
  held : ∀ x ∈ w.held, n ≤ x.seq
  refusals : ∀ x ∈ w.refusals, n ≤ x.seq

theorem since_start (db : DB) : Since db.nextSeq (World.start db) where
  next := Nat.le_refl _
  held := by simp [World.held, World.start, newEventRouter, Phase.events]
  refusals := by simp [World.start]

theorem since_step {n : Nat} {w w' : World} {a : Act} (hi : Since n w)
    (hs : step groupsFor w a = some w') : Since n w' := by
  have hm := step_moves hs
  refine ⟨?_, ?_, ?_⟩
  · have hn := hi.next
    cases hm with
    | insert => exact Nat.le_succ_of_le hn
    | restart => simpa [World.start] using hn
    | _ => exact hn
  · intro x hx
    rcases held_moves hm x hx with hold | ⟨y, _, rfl⟩
    · exact hi.held x hold
    · exact hi.next
  · have hr := hi.refusals
    cases hm with
    | @settleRefused e he =>
        intro x hx
        rcases List.mem_append.mp hx with h | h
        · exact hr x h
        · rw [List.mem_singleton.mp h]
          exact hi.held e (by simp [World.held, he])
    | _ => exact hr

variable {w : World}

/-- Nothing a run refused was journalled before it started. -/
theorem refusals_new {db : DB} {ok : World → Act → Prop} {acts : List Act}
    (h : Run (step groupsFor) ok (World.start db) acts w) {e : Event} (he : e ∈ w.refusals) :
    e ∉ db.events := by
  have hsince : Since db.nextSeq w :=
    h.invariant (since_start db) fun _ _ _ hi _ hs => since_step hi hs
  intro hin
  exact Nat.not_le.mpr (db.below e hin) (hsince.refusals e he)

/-! ## The law -/

/--
**A refused event stays owed until it is routed.**

In every run whose marks are guarded for it, an event `accept` returned false for
is above the stored watermark for as long as some delivery of it is not in the
outbox, and a process starting on that state's database leaves it written.
-/
theorem refused_stays_owed {db : DB} (hnext : db.routedThrough < db.nextSeq) {e : Event}
    {acts : List Act} {w : World}
    (h : Run (step groupsFor) (fun w a => Guarded groupsFor e w a) (World.start db) acts w)
    (hr : e ∈ w.refusals) :
    SafeFor groupsFor w.db e ∧ ¬ Owed groupsFor (replayUnrouted groupsFor .all w.db).1 e := by
  have hnew : SafeFor groupsFor db e := fun ho => absurd ho.1 (refusals_new h hr)
  have hu := unpassed_run (carried_start hnext) (unpassed_start hnew) h
  exact ⟨hu.stored, replayUnrouted_all hu.stored⟩

/-! ## Filling the queue -/

/-- The id of the `n`th event behind the first. -/
def uuidOf (n : Nat) : String := String.ofList ('b' :: List.replicate n '.')

/-- An event is journalled under `seq` and accepted. -/
def produce (seq : Nat) : List Act := [.insert (uuidOf seq) "" 0 trap, .register seq, .send seq]

/-- The event of seq 1 is journalled, and `n` more are accepted before it reaches `accept`. -/
def fill : Nat → List Act
  | 0 => [.insert "a" "" 0 trap]
  | n + 1 => fill n ++ produce (n + 2)

/-- What the first event looks like in the journal. -/
def firstEvent : Event := { withDefaults "a" "" 0 trap with seq := 1 }

/-- The first event waits for `accept` behind `n` accepted ones. -/
structure Filled (n : Nat) (w : World) : Prop where
  events : firstEvent ∈ w.db.events
  nextSeq : w.db.nextSeq = n + 2
  outbox : w.db.outbox = []
  committed : w.committed = [firstEvent]
  offered : w.offered = []
  refused : w.refused = []
  inline : w.inline = []
  queue : w.router.queue.length = n
  queued : ∀ x ∈ w.router.queue, x.id ≠ "a"
  batch : w.router.batch = []
  phase : w.router.phase = .idle
  inflight : ∀ s ∈ w.router.inflight, 2 ≤ s
  highest : n = 0 ∨ 2 ≤ w.router.highest

theorem uuidOf_ne (n : Nat) : uuidOf n ≠ "a" := by
  intro h
  have hl := congrArg String.toList h
  simp [uuidOf] at hl

/-- The trap of seq `n` as the database hands it back. -/
def trapAt (n : Nat) : Event := { withDefaults (uuidOf n) "" 0 trap with seq := n }

theorem id_trapAt (n : Nat) : (trapAt n).id ≠ "a" := by
  have hid : (trapAt n).id = uuidOf n := rfl
  rw [hid]
  exact uuidOf_ne n

theorem exec_produce {n : Nat} (h : Filled n w) (hn : n < routeQueueDepth) :
    exec (step catchAll) w (produce (n + 2)) = some { w with
      db := w.db.append (withDefaults (uuidOf (n + 2)) "" 0 trap)
      router := { w.router.register (n + 2) with queue := w.router.queue ++ [trapAt (n + 2)] } } := by
  have hvalid : validate trap = .ok () := rfl
  have hfirst : firstEvent.seq ≠ n + 2 := by simp [firstEvent]
  have hlast : (trapAt (n + 2)).seq = n + 2 := rfl
  have hsaved : ({ withDefaults (uuidOf (n + 2)) "" 0 trap with seq := w.db.nextSeq } : Event)
      = trapAt (n + 2) := by rw [h.nextSeq]; rfl
  simp [exec, produce, step, DB.insertEvent, hvalid, bind, Except.bind, pure, Except.pure, hsaved,
    withSeq, dropSeq, h.committed, h.offered, hfirst, hlast, EventRouter.register, h.queue, hn]

theorem filled_produce {n : Nat} (h : Filled n w) (hn : n < routeQueueDepth) :
    ∃ w', Run (step catchAll) (fun _ _ => True) w (produce (n + 2)) w' ∧ Filled (n + 1) w' := by
  refine ⟨_, run_of_exec (exec_produce h hn), ?_⟩
  refine ⟨?_, ?_, h.outbox, h.committed, h.offered, h.refused, h.inline, ?_, ?_, h.batch, h.phase,
    ?_, ?_⟩
  · exact List.mem_append_left _ h.events
  · exact congrArg (· + 1) h.nextSeq
  · simp [h.queue]
  · intro x hx
    rcases List.mem_append.mp hx with hx | hx
    · exact h.queued x hx
    · rw [List.mem_singleton.mp hx]
      exact id_trapAt _
  · intro s hs
    rcases mem_inflight_register.mp hs with rfl | hs
    · exact Nat.le_add_left _ _
    · exact h.inflight s hs
  · refine .inr ?_
    have hhi := highest_register w.router (n + 2)
    exact hhi ▸ Nat.le_trans (Nat.le_add_left 2 n) (Nat.le_max_right _ _)

theorem filled_fill {n : Nat} (hn : n ≤ routeQueueDepth) :
    ∃ w, Run (step catchAll) (fun _ _ => True) (World.start .empty) (fill n) w ∧ Filled n w := by
  induction n with
  | zero =>
      have hstep : exec (step catchAll) (World.start .empty) (fill 0) = some _ := rfl
      refine ⟨_, run_of_exec hstep, ?_⟩
      constructor <;> simp [World.start, newEventRouter, DB.append, DB.empty, firstEvent]
  | succ n ih =>
      obtain ⟨w, hrun, hw⟩ := ih (Nat.le_of_succ_le hn)
      obtain ⟨w', hrun', hw'⟩ := filled_produce hw hn
      exact ⟨w', hrun.trans hrun', hw'⟩

theorem guarded_of_ne {a : Act} (h : a ≠ .markIfSettled) (e : Event) :
    Guarded groupsFor e w a := by
  cases a with
  | markIfSettled => exact absurd rfl h
  | _ => trivial

/-- Filling the queue flushes nothing, so it is guarded for every event. -/
theorem fill_unmarked (n : Nat) : Act.markIfSettled ∉ fill n := by
  induction n with
  | zero => simp [fill]
  | succ n ih => simp [fill, produce, ih]

/-- The first event finds the queue full and is taken back out of flight. -/
def refusedFirst : List Act := [.register 1, .refuse 1, .settleRefused 1]

/-- What the router's memory is then. -/
def takenBack (r : EventRouter) : EventRouter := (r.register 1).settle [1]

/-- The first event is being routed inline. -/
def refusedWorld (w : World) : World :=
  { w with
    router := takenBack w.router
    committed := []
    inline := [firstEvent]
    refusals := w.refusals ++ [firstEvent] }

theorem exec_refusedFirst (h : Filled routeQueueDepth w) :
    exec (step catchAll) w refusedFirst = some (refusedWorld w) := by
  have hone : firstEvent.seq = 1 := rfl
  simp [exec, refusedFirst, step, withSeq, dropSeq, h.committed, h.offered, h.refused, h.inline,
    hone, EventRouter.register, h.queue, refusedWorld, takenBack, EventRouter.settle]

/-- The first event of a full queue is refused, and is above the watermark. -/
theorem refused_stays_owed_full :
    ∃ (acts : List Act) (w : World),
      Run (step catchAll) (fun w a => Guarded catchAll firstEvent w a) (World.start .empty) acts w ∧
      firstEvent ∈ w.refusals ∧ SafeFor catchAll w.db firstEvent ∧
      ¬ Owed catchAll (replayUnrouted catchAll .all w.db).1 firstEvent := by
  obtain ⟨w, hrun, hw⟩ := filled_fill (Nat.le_refl routeQueueDepth)
  have hall := hrun.trans (run_of_exec (exec_refusedFirst hw))
  have hguarded : Run (step catchAll) (fun w a => Guarded catchAll firstEvent w a)
      (World.start .empty) (fill routeQueueDepth ++ refusedFirst) (refusedWorld w) := by
    refine hall.of_labels fun a ha s => guarded_of_ne ?_ firstEvent
    rintro rfl
    rcases List.mem_append.mp ha with hf | hr
    · exact fill_unmarked _ hf
    · simp [refusedFirst] at hr
  have hrefused : firstEvent ∈ (refusedWorld w).refusals := by simp [refusedWorld]
  exact ⟨_, _, hguarded, hrefused, refused_stays_owed Nat.zero_lt_one hguarded hrefused⟩

/-! ## A refused event overtaken -/

/-- Its inline routing cannot read the rules, and the next event in the queue is
routed and written. -/
def thenFlush : List Act :=
  [.inlineReturn 1, .take, .flush, .routeOk, .markIfSettled, .writeOk]

theorem exec_thenFlush (h : Filled routeQueueDepth w) {e : Event} {queue : List Event}
    (hq : w.router.queue = e :: queue) :
    exec (step catchAll) (refusedWorld w) thenFlush = some { refusedWorld w with
      db := w.db.enqueueRouted (catchAll e) ((takenBack w.router).markIfSettled [e.seq])
      router := { takenBack w.router with queue, phase := .settling [e.seq] }
      inline := []
      stranded := w.stranded ++ [firstEvent] } := by
  have hone : firstEvent.seq = 1 := rfl
  have hroom : 0 < routeBatchSize := by decide
  simp [exec, thenFlush, step, withSeq, dropSeq, refusedWorld, hone, takenBack, hq, h.phase,
    h.batch, hroom, EventRouter.register, EventRouter.settle, EventRouter.markIfSettled]

/-- The flush of a later event writes a watermark at or above the refused one. -/
theorem one_le_markIfSettled {n : Nat} (h : Filled (n + 1) w) (seqs : List Nat) :
    1 ≤ (takenBack w.router).markIfSettled seqs := by
  have hhi : 2 ≤ (takenBack w.router).highest := by
    have hreg := highest_register w.router 1
    have h2 := h.highest.resolve_left (Nat.succ_ne_zero n)
    exact hreg ▸ Nat.le_trans h2 (Nat.le_max_left _ _)
  have hin : ∀ s ∈ (takenBack w.router).inflight, 2 ≤ s := by
    intro s hs
    obtain ⟨hmem, hne⟩ := mem_without.mp hs
    rcases mem_inflight_register.mp hmem with rfl | hold
    · exact absurd (List.mem_singleton.mpr rfl) hne
    · exact h.inflight s hold
  rw [markIfSettled_eq]
  refine Nat.le_trans ?_ (Nat.le_max_right _ _)
  unfold markBelow
  split
  · rename_i hl
    have := hin _ (mem_without.mp (lowest_mem hl)).1
    omega
  · omega

theorem exists_refused_overtaken :
    ∃ (acts : List Act) (w : World),
      Run (step catchAll) (fun _ _ => True) (World.start .empty) acts w ∧
      firstEvent ∈ w.refusals ∧ ¬ SafeFor catchAll w.db firstEvent := by
  obtain ⟨w, hrun, hw⟩ := filled_fill (Nat.le_refl routeQueueDepth)
  obtain ⟨e, queue, hq⟩ : ∃ e queue, w.router.queue = e :: queue :=
    List.exists_cons_of_length_pos (by rw [hw.queue]; decide)
  have hrefused := run_of_exec (exec_refusedFirst hw)
  have hflush := run_of_exec (exec_thenFlush hw hq)
  refine ⟨_, _, hrun.trans (hrefused.trans hflush), by simp [refusedWorld], ?_⟩
  intro hsafe
  have hlt := hsafe ⟨hw.events, ?_⟩
  · have hone := one_le_markIfSettled hw [e.seq]
    rw [routedThrough_enqueueRouted] at hlt
    have hfirst : firstEvent.seq = 1 := rfl
    omega
  · -- the only row is the flushed event's, under its own id
    intro hwritten
    have hrow := hwritten { event := firstEvent, sinkIDs := ["noc"] } (List.mem_singleton.mpr rfl) ("a", "noc")
      (List.mem_singleton.mpr rfl)
    have hid : e.id ≠ "a" := hw.queued e (by rw [hq]; exact List.mem_cons_self)
    rcases mem_insertRows.mp hrow with hold | hnew
    · rw [hw.outbox] at hold
      cases hold
    · have heq : ("a", "noc") = (e.id, "noc") := by simpa [catchAll, RoutedGroup.rows] using hnew
      exact hid (congrArg Prod.fst heq).symm

/-- **The claim without the guard fails.** The first event is refused by a full queue and
not routed inline, and the next flush writes a watermark that passes it. -/
theorem refused_overtaken :
    ¬ ∀ (acts : List Act) (w : World),
        Run (step catchAll) (fun _ _ => True) (World.start .empty) acts w →
        ∀ e ∈ w.refusals, SafeFor catchAll w.db e := by
  intro hall
  obtain ⟨acts, w, hrun, hr, hpassed⟩ := exists_refused_overtaken
  exact hpassed (hall acts w hrun firstEvent hr)

end SnmpLens.Router
