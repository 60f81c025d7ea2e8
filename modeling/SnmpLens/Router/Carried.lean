import SnmpLens.Router.Replay

/-!
# Who carries an owed event

The router's bookkeeping is sound for one reason: an owed event is always
somewhere. It is in the in-flight set, or it stands *outside* it — between its
commit and `accept`, refused, being routed inline, or stranded. `step_moves`
says once what each step can do; `carried_step` follows the event through it.
-/

namespace SnmpLens.Router

open Events Machine

variable {groupsFor : Event → List RoutedGroup}

/-! ## What a step can do -/

/-- Every step, with its guard and what it leaves. -/
inductive Moves (groupsFor : Event → List RoutedGroup) (w : World) : Act → World → Prop
  | insert {uuid now : String} {payload : Nat} {e x : Event} :
      validate e = .ok () → x = withDefaults uuid now payload e →
      Moves groupsFor w (.insert uuid now payload e)
        { w with
          db := w.db.append x, committed := w.committed ++ [{ x with seq := w.db.nextSeq }] }
  | register {e : Event} : e ∈ w.committed →
      Moves groupsFor w (.register e.seq)
        { w with
          router := w.router.register e.seq
          committed := dropSeq w.committed e.seq
          offered := w.offered ++ [e] }
  | send {e : Event} : e ∈ w.offered → w.router.queue.length < routeQueueDepth →
      Moves groupsFor w (.send e.seq)
        { w with
          router := { w.router with queue := w.router.queue ++ [e] }
          offered := dropSeq w.offered e.seq }
  | refuse {e : Event} : e ∈ w.offered → routeQueueDepth ≤ w.router.queue.length →
      Moves groupsFor w (.refuse e.seq)
        { w with offered := dropSeq w.offered e.seq, refused := w.refused ++ [e] }
  | settleRefused {e : Event} : e ∈ w.refused →
      Moves groupsFor w (.settleRefused e.seq)
        { w with
          router := w.router.settle [e.seq]
          refused := dropSeq w.refused e.seq
          inline := w.inline ++ [e]
          refusals := w.refusals ++ [e] }
  | inlineWrite {e : Event} {g : RoutedGroup} : e ∈ w.inline → g ∈ groupsFor e →
      Moves groupsFor w (.inlineWrite e.seq g) { w with db := w.db.enqueueDeliveries g }
  | inlineReturn {e : Event} : e ∈ w.inline →
      Moves groupsFor w (.inlineReturn e.seq)
        { w with inline := dropSeq w.inline e.seq, stranded := w.stranded ++ [e] }
  | take {e : Event} {queue : List Event} : w.router.phase = .idle →
      w.router.queue = e :: queue →
      Moves groupsFor w .take
        { w with router := { w.router with queue, batch := w.router.batch ++ [e] } }
  | takeDeferred : w.router.phase = .idle →
      Moves groupsFor w .takeDeferred { w with router := w.router.takeDeferred }
  | flush : w.router.phase = .idle → w.router.batch ≠ [] →
      Moves groupsFor w .flush
        { w with
          router := { w.router with batch := [], phase := .routing w.router.batch [] [] } }
  | routeOk {e : Event} {pending routed : List Event} {groups : List RoutedGroup} :
      w.router.phase = .routing (e :: pending) routed groups →
      Moves groupsFor w .routeOk
        { w with
          router := { w.router with
            phase := .routing pending (routed ++ [e]) (groups ++ groupsFor e) } }
  | routeFail {e : Event} {pending routed : List Event} {groups : List RoutedGroup} :
      w.router.phase = .routing (e :: pending) routed groups →
      Moves groupsFor w .routeFail
        { w with router := { w.router.defer1 e with phase := .routing pending routed groups } }
  | markIfSettled {routed : List Event} {groups : List RoutedGroup} :
      w.router.phase = .routing [] routed groups →
      Moves groupsFor w .markIfSettled
        { w with
          router := { w.router with
            phase := .writing routed groups (w.router.markIfSettled (routed.map Event.seq)) } }
  | writeOk {routed : List Event} {groups : List RoutedGroup} {mark : Nat} :
      w.router.phase = .writing routed groups mark →
      Moves groupsFor w .writeOk
        { w with
          db := w.db.enqueueRouted groups mark
          router := { w.router with phase := .settling (routed.map Event.seq) } }
  | writeFail {routed : List Event} {groups : List RoutedGroup} {mark : Nat} :
      w.router.phase = .writing routed groups mark →
      Moves groupsFor w .writeFail
        { w with router := { routed.foldl EventRouter.defer1 w.router with phase := .idle } }
  | settle {seqs : List Nat} : w.router.phase = .settling seqs →
      Moves groupsFor w .settle
        { w with router := { w.router.settle seqs with phase := .idle } }
  | delete {gone : List Nat} :
      Moves groupsFor w (.delete gone) { w with db := w.db.delete gone }
  | restart {ans : Answers} :
      Moves groupsFor w (.restart ans)
        { World.start (replayUnrouted groupsFor ans w.db).1 with refusals := w.refusals }

theorem mem_of_withSeq {es : List Event} {seq : Nat} {e : Event} (h : withSeq es seq = some e) :
    e ∈ es ∧ e.seq = seq :=
  ⟨List.mem_of_find?_eq_some h, by simpa using List.find?_some h⟩

theorem mem_dropSeq {es : List Event} {seq : Nat} {e : Event} :
    e ∈ dropSeq es seq ↔ e ∈ es ∧ e.seq ≠ seq := by
  simp [dropSeq]

variable {w w' : World} {a : Act}

/-- **Inversion.** A step that is taken is one of the moves. -/
theorem step_moves (h : step groupsFor w a = some w') :
    Moves groupsFor w a w' := by
  cases a with
  | insert uuid now payload e =>
      simp only [step, DB.insertEvent, bind, Except.bind] at h
      cases hv : validate e with
      | error err => rw [hv] at h; cases h
      | ok u =>
          rw [hv] at h
          obtain rfl := Option.some.inj h
          exact .insert hv rfl
  | register seq | settleRefused seq | inlineReturn seq =>
      obtain ⟨e, he, hs⟩ := Option.bind_eq_some_iff.mp h
      obtain ⟨hmem, rfl⟩ := mem_of_withSeq he
      obtain rfl := Option.some.inj hs
      constructor
      exact hmem
  | send seq =>
      obtain ⟨e, he, hs⟩ := Option.bind_eq_some_iff.mp h
      obtain ⟨hmem, rfl⟩ := mem_of_withSeq he
      split at hs
      · rename_i hroom
        obtain rfl := Option.some.inj hs
        exact .send hmem hroom
      · cases hs
  | refuse seq =>
      obtain ⟨e, he, hs⟩ := Option.bind_eq_some_iff.mp h
      obtain ⟨hmem, rfl⟩ := mem_of_withSeq he
      split at hs
      · cases hs
      · rename_i hfull
        obtain rfl := Option.some.inj hs
        exact .refuse hmem (Nat.le_of_not_lt hfull)
  | inlineWrite seq g =>
      obtain ⟨e, he, hs⟩ := Option.bind_eq_some_iff.mp h
      obtain ⟨hmem, rfl⟩ := mem_of_withSeq he
      split at hs
      · rename_i hg
        obtain rfl := Option.some.inj hs
        exact .inlineWrite hmem (by simpa using hg)
      · cases hs
  | take =>
      simp only [step] at h
      split at h
      · rename_i hphase hqueue
        split at h
        · obtain rfl := Option.some.inj h
          exact .take hphase hqueue
        · cases h
      · cases h
  | flush =>
      simp only [step] at h
      split at h
      · rename_i hphase
        split at h
        · cases h
        · rename_i hbatch
          obtain rfl := Option.some.inj h
          exact .flush hphase (by simpa using hbatch)
      · cases h
  | takeDeferred | routeOk | routeFail | markIfSettled | writeOk | writeFail | settle =>
      -- these ask for the phase of the flush only
      simp only [step] at h
      split at h
      · rename_i hphase
        obtain rfl := Option.some.inj h
        constructor
        exact hphase
      · cases h
  | delete gone =>
      obtain rfl := Option.some.inj h
      exact .delete
  | restart ans =>
      obtain rfl := Option.some.inj h
      exact .restart

/-! ## Events are known -/

theorem nextSeq_moves (h : Moves groupsFor w a w') :
    w.db.nextSeq ≤ w'.db.nextSeq := by
  cases h with
  | insert => exact Nat.le_succ _
  | restart => exact Nat.le_of_eq (nextSeq_replayUnrouted ..).symm
  | _ => exact Nat.le_refl _

/-- The events the flush in progress holds. -/
def Phase.events : Phase → List Event
  | .idle => []
  | .routing pending routed _ => pending ++ routed
  | .writing routed _ _ => routed
  | .settling _ => []

/-- Every event some goroutine holds, wherever it stands. -/
def World.held (w : World) : List Event :=
  w.committed ++ w.offered ++ w.refused ++ w.inline
    ++ w.router.queue ++ w.router.deferred ++ w.router.batch ++ w.router.phase.events

/-- The journal's event under `x.seq` is `x`, unless it has been deleted. -/
structure Known (db : DB) (x : Event) : Prop where
  positive : 0 < x.seq
  below : x.seq < db.nextSeq
  unique : ∀ e ∈ db.events, e.seq = x.seq → e = x

theorem known_append {db : DB} {x y : Event} (h : Known db x) : Known (db.append y) x where
  positive := h.positive
  below := Nat.lt_succ_of_lt h.below
  unique := by
    intro e he hseq
    rcases List.mem_append.mp he with h' | h'
    · exact h.unique e h' hseq
    · have hlt := h.below
      rw [List.mem_singleton.mp h'] at hseq
      exact absurd hseq (by simp only; omega)

theorem known_new (db : DB) (y : Event) : Known (db.append y) { y with seq := db.nextSeq } where
  positive := db.nextSeq_pos
  below := Nat.lt_succ_self _
  unique := by
    intro e he hseq
    rcases List.mem_append.mp he with h' | h'
    · have hlt := db.below e h'
      exact absurd hseq (by simp only; omega)
    · exact List.mem_singleton.mp h'

theorem Known.of_subset {db db' : DB} {x : Event} (h : Known db x)
    (hnext : db.nextSeq = db'.nextSeq) (hsub : ∀ e ∈ db'.events, e ∈ db.events) :
    Known db' x :=
  ⟨h.positive, hnext ▸ h.below, fun e he => h.unique e (hsub e he)⟩

/-- What a goroutine holds after a step it held before, or it is the event just inserted. -/
theorem held_moves (h : Moves groupsFor w a w') :
    ∀ x ∈ w'.held, x ∈ w.held
      ∨ ∃ y, w'.db = w.db.append y ∧ x = { y with seq := w.db.nextSeq } := by
  intro x hx
  cases h with
  | insert hv heq =>
      simp only [World.held, List.mem_append, List.mem_singleton] at hx ⊢
      rcases hx with ((((((( hx | rfl) | hx) | hx) | hx) | hx) | hx) | hx) | hx
      · exact .inl (by simp [hx])
      · exact .inr ⟨_, rfl, rfl⟩
      all_goals exact .inl (by simp [hx])
  | register he | send he _ | refuse he _ | settleRefused he | inlineReturn he =>
      refine .inl ?_
      simp only [World.held, List.mem_append, List.mem_singleton, mem_dropSeq, EventRouter.register,
        EventRouter.settle] at hx ⊢
      grind
  | take hphase hqueue =>
      refine .inl ?_
      simp only [World.held, List.mem_append, hqueue, List.mem_cons] at hx ⊢
      grind
  | takeDeferred hphase =>
      refine .inl ?_
      simp only [World.held, EventRouter.takeDeferred, List.mem_append] at hx ⊢
      have htake : ∀ n, x ∈ w.router.deferred.take n → x ∈ w.router.deferred :=
        fun n => List.mem_of_mem_take
      have hdrop : ∀ n, x ∈ w.router.deferred.drop n → x ∈ w.router.deferred :=
        fun n => List.mem_of_mem_drop
      grind
  | flush hphase _ | routeOk hphase | markIfSettled hphase | writeOk hphase | settle hphase =>
      refine .inl ?_
      simp only [World.held, EventRouter.settle, hphase, Phase.events, List.mem_append,
        List.mem_cons] at hx ⊢
      grind
  | @routeFail e pending routed groups hphase =>
      refine .inl ?_
      rw [defer1_frame] at hx
      have hdef : x ∈ (w.router.defer1 e).deferred → x ∈ w.router.deferred ∨ x = e :=
        mem_deferred_defer1
      simp only [World.held, hphase, Phase.events, List.mem_append, List.mem_cons] at hx ⊢
      grind
  | @writeFail routed groups mark hphase =>
      refine .inl ?_
      rw [foldl_defer1_frame] at hx
      have hdef : x ∈ (routed.foldl EventRouter.defer1 w.router).deferred →
          x ∈ w.router.deferred ∨ x ∈ routed := mem_deferred_foldl
      simp only [World.held, hphase, Phase.events, List.mem_append] at hx ⊢
      grind
  | restart => simp [World.held, World.start, newEventRouter, Phase.events] at hx
  | _ => exact .inl hx

theorem known_moves (h : Moves groupsFor w a w') {x : Event} (hx : Known w.db x) :
    Known w'.db x := by
  cases h with
  | insert => exact known_append hx
  | delete => exact hx.of_subset rfl fun e he => (List.mem_filter.mp he).1
  | restart => exact hx.of_subset (by simp [World.start]) (by simp [World.start])
  | _ => exact ⟨hx.positive, hx.below, hx.unique⟩

/-! ## The numbers -/

/-- How the seqs, the marks and the journal's next seq are ordered. -/
structure Bounds (w : World) : Prop where
  inflight_pos : ∀ s ∈ w.router.inflight, 0 < s
  inflight_le : ∀ s ∈ w.router.inflight, s ≤ w.router.highest
  highest_lt : w.router.highest < w.db.nextSeq
  confirmed_le : w.router.confirmed ≤ w.router.highest
  writing_le : ∀ routed groups mark,
    w.router.phase = .writing routed groups mark → mark ≤ w.router.highest
  settling_lt : ∀ seqs, w.router.phase = .settling seqs → ∀ s ∈ seqs, s < w.db.nextSeq
  mark_lt : w.db.routedThrough < w.db.nextSeq

theorem bounds_start {db : DB} (h : db.routedThrough < db.nextSeq) : Bounds (World.start db) where
  inflight_pos := by simp [World.start, newEventRouter]
  inflight_le := by simp [World.start, newEventRouter]
  highest_lt := db.nextSeq_pos
  confirmed_le := Nat.le_refl _
  writing_le := by simp [World.start, newEventRouter]
  settling_lt := by simp [World.start, newEventRouter]
  mark_lt := h

theorem bounds_moves (h : Moves groupsFor w a w') (hknown : ∀ x ∈ w.held, Known w.db x)
    (hb : Bounds w) : Bounds w' := by
  obtain ⟨hpos, hle, hhi, hconf, hwr, hset, hmark⟩ := hb
  cases h with
  | insert =>
      refine ⟨hpos, hle, Nat.lt_succ_of_lt hhi, hconf, hwr, ?_, Nat.lt_succ_of_lt hmark⟩
      intro seqs hp s hs
      exact Nat.lt_succ_of_lt (hset seqs hp s hs)
  | @register e he =>
      have hk : Known w.db e := hknown e (by simp [World.held, he])
      refine ⟨?_, ?_, ?_, ?_, ?_, hset, hmark⟩
      · intro s hs
        rcases mem_inflight_register.mp hs with rfl | hs
        · exact hk.positive
        · exact hpos s hs
      · intro s hs
        rw [highest_register]
        rcases mem_inflight_register.mp hs with rfl | hs
        · exact Nat.le_max_right _ _
        · exact Nat.le_trans (hle s hs) (Nat.le_max_left _ _)
      · rw [highest_register]
        exact Nat.max_lt.mpr ⟨hhi, hk.below⟩
      · rw [highest_register]
        exact Nat.le_trans hconf (Nat.le_max_left _ _)
      · intro routed groups mark hp
        rw [highest_register]
        exact Nat.le_trans (hwr routed groups mark hp) (Nat.le_max_left _ _)
  | @settleRefused e he =>
      refine ⟨?_, ?_, hhi, ?_, hwr, hset, hmark⟩
      · intro s hs
        exact hpos s (mem_without.mp hs).1
      · intro s hs
        exact hle s (mem_without.mp hs).1
      · rw [confirmed_settle]
        exact Nat.max_le.mpr ⟨hconf, markBelow_le hle⟩
  | @markIfSettled routed groups hp =>
      refine ⟨hpos, hle, hhi, hconf, ?_, by simp, hmark⟩
      intro routed' groups' mark hp'
      injection hp' with _ _ hm
      rw [← hm, markIfSettled_eq]
      exact Nat.max_le.mpr ⟨hconf, markBelow_le hle⟩
  | @writeOk routed groups mark hp =>
      refine ⟨hpos, hle, hhi, hconf, by simp, ?_, ?_⟩
      · intro seqs hp' s hs
        injection hp' with hseqs
        rw [← hseqs] at hs
        obtain ⟨x, hx, rfl⟩ := List.mem_map.mp hs
        exact (hknown x (by simp [World.held, hp, Phase.events, hx])).below
      rw [routedThrough_enqueueRouted]
      exact Nat.max_lt.mpr ⟨hmark, Nat.lt_of_le_of_lt (hwr routed groups mark hp) hhi⟩
  | @settle seqs hp =>
      refine ⟨?_, ?_, hhi, ?_, by simp, by simp, hmark⟩
      · intro s hs
        exact hpos s (mem_without.mp hs).1
      · intro s hs
        exact hle s (mem_without.mp hs).1
      · have hc := confirmed_settle w.router seqs
        simp only at hc ⊢
        rw [hc]
        exact Nat.max_le.mpr ⟨hconf, markBelow_le hle⟩
  | routeFail hp =>
      rw [defer1_frame]
      exact ⟨hpos, hle, hhi, hconf, by simp, by simp, hmark⟩
  | writeFail hp =>
      rw [foldl_defer1_frame]
      exact ⟨hpos, hle, hhi, hconf, by simp, by simp, hmark⟩
  | @restart ans =>
      have hlt : (replayUnrouted groupsFor ans w.db).1.routedThrough
          < (replayUnrouted groupsFor ans w.db).1.nextSeq := by
        rw [nextSeq_replayUnrouted]
        exact below_replayUnrouted hmark
      obtain ⟨h1, h2, h3, h4, h5, h6, h7⟩ := bounds_start hlt
      exact ⟨h1, h2, h3, h4, h5, h6, h7⟩
  | flush => exact ⟨hpos, hle, hhi, hconf, by simp, by simp, hmark⟩
  | routeOk => exact ⟨hpos, hle, hhi, hconf, by simp, by simp, hmark⟩
  | _ => exact ⟨hpos, hle, hhi, hconf, hwr, hset, hmark⟩

/-! ## The flush in progress -/

/-- A flush has the groups of every event it has routed, and settles only what is written. -/
def FlushOk (groupsFor : Event → List RoutedGroup) (w : World) : Prop :=
  match w.router.phase with
  | .idle => True
  | .routing _ routed groups => ∀ e ∈ routed, ∀ g ∈ groupsFor e, g ∈ groups
  | .writing routed groups _ => ∀ e ∈ routed, ∀ g ∈ groupsFor e, g ∈ groups
  | .settling seqs => ∀ e ∈ w.db.events, e.seq ∈ seqs → Written groupsFor w.db e

theorem flushOk_moves (h : Moves groupsFor w a w') (hknown : ∀ x ∈ w.held, Known w.db x)
    (hb : Bounds w) (hf : FlushOk groupsFor w) :
    FlushOk groupsFor w' := by
  unfold FlushOk at hf ⊢
  cases h with
  | insert hv heq =>
      cases hp : w.router.phase with
      | settling seqs =>
          simp only [hp] at hf ⊢
          intro e he hseq
          rcases List.mem_append.mp he with h' | h'
          · exact (hf e h' hseq).mono fun r hr => hr
          · -- a settled seq was handed out before the one just inserted
            have hlt := hb.settling_lt seqs hp _ hseq
            rw [List.mem_singleton.mp h'] at hlt
            exact absurd hlt (Nat.lt_irrefl _)
      | idle => trivial
      | routing => simpa only [hp] using hf
      | writing => simpa only [hp] using hf
  | register => simpa using hf
  | settleRefused => simpa using hf
  | @inlineWrite e g he hg =>
      cases hp : w.router.phase with
      | settling seqs =>
          simp only [hp] at hf ⊢
          intro e he hseq
          exact (hf e he hseq).mono (outbox_enqueueDeliveries _ _)
      | idle => trivial
      | routing => simpa only [hp] using hf
      | writing => simpa only [hp] using hf
  | flush => simp
  | @routeOk e pending routed groups hp =>
      simp only [hp] at hf ⊢
      intro x hx g hg
      rcases List.mem_append.mp hx with h' | h'
      · exact List.mem_append_left _ (hf x h' g hg)
      · rw [List.mem_singleton.mp h'] at hg
        exact List.mem_append_right _ hg
  | routeFail hp => simpa only [hp] using hf
  | markIfSettled hp => simpa only [hp] using hf
  | @writeOk routed groups mark hp =>
      simp only [hp] at hf ⊢
      intro e he hseq
      obtain ⟨x, hx, hxe⟩ := List.mem_map.mp hseq
      have hk : Known w.db x := hknown x (by simp [World.held, hp, Phase.events, hx])
      rw [hk.unique e he hxe.symm]
      exact written_enqueueRouted (hf x hx)
  | writeFail => trivial
  | settle => trivial
  | @delete gone =>
      cases hp : w.router.phase with
      | settling seqs =>
          simp only [hp] at hf ⊢
          intro e he hseq
          exact (hf e (List.mem_filter.mp he).1 hseq).mono fun r hr => hr
      | idle => trivial
      | routing => simpa only [hp] using hf
      | writing => simpa only [hp] using hf
  | restart => simp [World.start, newEventRouter]
  | _ => exact hf

/-! ## An owed event is somewhere -/

/-- Journalled, and outside the in-flight bookkeeping: its producer has not reached
`accept`, or `accept` refused it, or nobody in this process carries it. -/
def World.Outside (w : World) (e : Event) : Prop :=
  e ∈ w.committed ∨ e ∈ w.refused ∨ e ∈ w.inline ∨ e ∈ w.stranded

/-- Every owed event is in flight or outside. -/
def AllCarried (groupsFor : Event → List RoutedGroup) (w : World) : Prop :=
  ∀ e, Owed groupsFor w.db e → e.seq ∈ w.router.inflight ∨ w.Outside e

theorem allCarried_moves (h : Moves groupsFor w a w') (hknown : ∀ x ∈ w.held, Known w.db x)
    (hf : FlushOk groupsFor w) (hc : AllCarried groupsFor w) :
    AllCarried groupsFor w' := by
  intro e ho
  cases h with
  | insert hv heq =>
      rcases ho.of_append with h' | rfl
      · rcases hc e h' with hin | hcom | hout
        · exact .inl hin
        · exact .inr (.inl (List.mem_append_left _ hcom))
        · exact .inr (.inr hout)
      · exact .inr (.inl (List.mem_append_right _ List.mem_cons_self))
  | @register x hx =>
      rcases hc e ho with hin | hcom | hout
      · exact .inl (mem_inflight_register.mpr (.inr hin))
      · by_cases hseq : e.seq = x.seq
        · exact .inl (mem_inflight_register.mpr (.inl hseq))
        · exact .inr (.inl (mem_dropSeq.mpr ⟨hcom, hseq⟩))
      · exact .inr (.inr hout)
  | refuse hx _ =>
      rcases hc e ho with hin | hcom | href | hout
      · exact .inl hin
      · exact .inr (.inl hcom)
      · exact .inr (.inr (.inl (List.mem_append_left _ href)))
      · exact .inr (.inr (.inr hout))
  | @settleRefused x hx =>
      have hk : Known w.db x := hknown x (by simp [World.held, hx])
      -- the refused event leaves the in-flight set and is inline from here on
      by_cases hseq : e.seq = x.seq
      · rw [hk.unique e ho.1 hseq]
        exact .inr (.inr (.inr (.inl (List.mem_append_right _ List.mem_cons_self))))
      · rcases hc e ho with hin | hcom | href | hinl | hstr
        · exact .inl (mem_without.mpr ⟨hin, by simpa using hseq⟩)
        · exact .inr (.inl hcom)
        · exact .inr (.inr (.inl (mem_dropSeq.mpr ⟨href, hseq⟩)))
        · exact .inr (.inr (.inr (.inl (List.mem_append_left _ hinl))))
        · exact .inr (.inr (.inr (.inr hstr)))
  | inlineWrite => exact hc e ho.of_enqueueDeliveries
  | @inlineReturn x hx =>
      have hk : Known w.db x := hknown x (by simp [World.held, hx])
      rcases hc e ho with hin | hcom | href | hinl | hstr
      · exact .inl hin
      · exact .inr (.inl hcom)
      · exact .inr (.inr (.inl href))
      · by_cases hseq : e.seq = x.seq
        · rw [hk.unique e ho.1 hseq]
          exact .inr (.inr (.inr (.inr (List.mem_append_right _ List.mem_cons_self))))
        · exact .inr (.inr (.inr (.inl (mem_dropSeq.mpr ⟨hinl, hseq⟩))))
      · exact .inr (.inr (.inr (.inr (List.mem_append_left _ hstr))))
  | @writeOk routed groups mark hp => exact hc e ho.of_enqueueRouted
  | routeFail hp => rw [defer1_frame]; exact hc e ho
  | writeFail hp => rw [foldl_defer1_frame]; exact hc e ho
  | @settle seqs hp =>
      rcases hc e ho with hin | hout
      · refine .inl (mem_without.mpr ⟨hin, fun hseq => ho.2 ?_⟩)
        unfold FlushOk at hf
        simp only [hp] at hf
        exact hf e ho.1 hseq
      · exact .inr hout
  | delete => exact hc e ho.of_delete
  | restart => exact .inr (.inr (.inr (.inr ho.1)))
  | _ => exact hc e ho

/-! ## The invariant -/

/-- What holds of every state of every run. -/
structure Carried (groupsFor : Event → List RoutedGroup) (w : World) : Prop where
  known : ∀ x ∈ w.held, Known w.db x
  bounds : Bounds w
  flush : FlushOk groupsFor w
  carried : AllCarried groupsFor w

theorem carried_start {db : DB} (h : db.routedThrough < db.nextSeq) :
    Carried groupsFor (World.start db) where
  known := by simp [World.held, World.start, newEventRouter, Phase.events]
  bounds := bounds_start h
  flush := by simp [FlushOk, World.start, newEventRouter]
  carried := fun _ ho => .inr (.inr (.inr (.inr ho.1)))

/-- **The invariant is preserved by every step.** -/
theorem carried_step (hc : Carried groupsFor w) (hs : step groupsFor w a = some w') :
    Carried groupsFor w' := by
  have h := step_moves hs
  refine ⟨?_, bounds_moves h hc.known hc.bounds, flushOk_moves h hc.known hc.bounds hc.flush,
    allCarried_moves h hc.known hc.flush hc.carried⟩
  intro x hx
  rcases held_moves h x hx with hold | ⟨y, hdb, rfl⟩
  · exact known_moves h (hc.known x hold)
  · rw [hdb]
    exact known_new w.db y

end SnmpLens.Router
