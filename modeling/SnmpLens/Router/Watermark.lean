import SnmpLens.Router.Carried

/-!
# The watermark never passes an owed event — while every mark is guarded

`markIfSettled` takes the lowest seq in flight for the lowest seq that is owed.
The two agree except for the events *outside* the in-flight set, and this module
is about exactly that difference: as long as every flush computes its mark while
each owed event it does not write is above what the router has confirmed and,
outside, covered — above everything accepted, or above a seq that stays in flight
— the stored watermark stays below everything owed, through any interleaving, any
failure and any restart. A flush whose mark is not guarded leaves an owed event
behind the watermark for good, and the run at the end is one way that happens.
-/

namespace SnmpLens.Router

open Events Machine

variable {groupsFor : Event → List RoutedGroup}

/-! ## The guard -/

/--
The step computes no mark that passes `e`.

The mark a flush is going to write is `markIfSettled` over what it has routed. If
`e` is owed and not in the batch, it has to be above `confirmed`, and covered if
it is outside the in-flight set.
-/
def Guarded (groupsFor : Event → List RoutedGroup) (e : Event) (w : World) : Act → Prop
  | .markIfSettled => ∀ routed groups, w.router.phase = .routing [] routed groups →
      Owed groupsFor w.db e → e ∉ routed →
      w.router.confirmed < e.seq ∧ (w.Outside e → w.router.Covers (routed.map Event.seq) e.seq)
  | _ => True

/-- No mark, stored or about to be written, has passed `e` while it is owed. -/
structure Unpassed (groupsFor : Event → List RoutedGroup) (e : Event) (w : World) : Prop where
  stored : SafeFor groupsFor w.db e
  writing : ∀ routed groups mark, w.router.phase = .writing routed groups mark →
    Owed groupsFor w.db e → mark < e.seq ∨ e ∈ routed

theorem unpassed_start {db : DB} {e : Event} (h : SafeFor groupsFor db e) :
    Unpassed groupsFor e (World.start db) where
  stored := h
  writing := by simp [World.start, newEventRouter]

/-- An owed event in flight, and not in the batch, covers itself. -/
theorem covers_of_inflight {w : World} {e : Event} {routed groups} (hc : Carried groupsFor w)
    (hp : w.router.phase = .routing [] routed groups) (ho : Owed groupsFor w.db e)
    (hin : e ∉ routed) (hout : ¬ w.Outside e) :
    w.router.Covers (routed.map Event.seq) e.seq := by
  have hmem : e.seq ∈ w.router.inflight := (hc.carried e ho).resolve_right hout
  refine .inr ⟨e.seq, hmem, ?_, Nat.le_refl _⟩
  intro hseq
  obtain ⟨x, hx, hxe⟩ := List.mem_map.mp hseq
  have hk : Known w.db x := hc.known x (by simp [World.held, hp, Phase.events, hx])
  exact hin (hk.unique e ho.1 hxe.symm ▸ hx)

/-- **A guarded step passes nothing.** -/
theorem unpassed_step {w w' : World} {a : Act} {e : Event} (hc : Carried groupsFor w)
    (hu : Unpassed groupsFor e w) (hg : Guarded groupsFor e w a)
    (hs : step groupsFor w a = some w') : Unpassed groupsFor e w' := by
  obtain ⟨hst, hwr⟩ := hu
  cases step_moves hs with
  | insert hv heq =>
      -- a new event's seq is above every mark there is
      refine ⟨?_, ?_⟩
      · intro ho
        rcases ho.of_append with h' | rfl
        · exact hst h'
        · exact hc.bounds.mark_lt
      · intro routed groups mark hp ho
        rcases ho.of_append with h' | rfl
        · exact hwr routed groups mark hp h'
        · exact .inl (Nat.lt_of_le_of_lt (hc.bounds.writing_le _ _ _ hp) hc.bounds.highest_lt)
  | inlineWrite =>
      exact ⟨fun ho => hst ho.of_enqueueDeliveries,
        fun r g m hp ho => hwr r g m hp ho.of_enqueueDeliveries⟩
  | @markIfSettled routed groups hp =>
      refine ⟨hst, ?_⟩
      intro routed' groups' mark hp' ho
      injection hp' with hr _ hm
      rw [← hr, ← hm]
      by_cases hin : e ∈ routed
      · exact .inr hin
      · obtain ⟨hconf, hcov⟩ := hg routed groups hp ho hin
        have hcovers : w.router.Covers (routed.map Event.seq) e.seq := by
          by_cases hout : w.Outside e
          · exact hcov hout
          · exact covers_of_inflight hc hp ho hin hout
        rw [markIfSettled_eq]
        exact .inl (Nat.max_lt.mpr ⟨hconf,
          (markBelow_lt_iff hc.bounds.inflight_pos hc.bounds.inflight_le).mpr hcovers⟩)
  | @writeOk routed groups mark hp =>
      refine ⟨?_, by simp⟩
      intro ho
      rw [routedThrough_enqueueRouted]
      refine Nat.max_lt.mpr ⟨hst ho.of_enqueueRouted, ?_⟩
      rcases hwr routed groups mark hp ho.of_enqueueRouted with hlt | hin
      · exact hlt
      · -- what the flush wrote is not owed any more
        have hf := hc.flush
        unfold FlushOk at hf
        simp only [hp] at hf
        exact absurd (written_enqueueRouted (hf e hin)) ho.2
  | settleRefused => exact ⟨hst, hwr⟩
  | settle hp => exact ⟨hst, by simp⟩
  | routeFail hp => rw [defer1_frame]; exact ⟨hst, by simp⟩
  | writeFail hp => rw [foldl_defer1_frame]; exact ⟨hst, by simp⟩
  | delete => exact ⟨fun ho => hst ho.of_delete, fun r g m hp ho => hwr r g m hp ho.of_delete⟩
  | @restart ans =>
      have h := unpassed_start (@safeFor_replayUnrouted groupsFor e ans w.db hst)
      exact ⟨h.stored, h.writing⟩
  | flush => exact ⟨hst, by simp⟩
  | routeOk => exact ⟨hst, by simp⟩
  | _ => exact ⟨hst, hwr⟩

/-- **A run whose marks are all guarded for `e` passes it in no state.** -/
theorem unpassed_run {w w' : World} {acts : List Act} {e : Event} (hc : Carried groupsFor w)
    (hu : Unpassed groupsFor e w)
    (h : Run (step groupsFor) (fun w a => Guarded groupsFor e w a) w acts w') :
    Unpassed groupsFor e w' := by
  have hboth : Carried groupsFor w' ∧ Unpassed groupsFor e w' :=
    h.invariant (I := fun w => Carried groupsFor w ∧ Unpassed groupsFor e w) ⟨hc, hu⟩
      fun _ _ _ hi hok hs => ⟨carried_step hi.1 hs, unpassed_step hi.1 hi.2 hok hs⟩
  exact hboth.2

/-! ## Watermark safety -/

/--
**The watermark stays below everything owed.**

From any database whose watermark keeps its promise, in every state of every run
whose marks are all guarded, nothing at or below the stored watermark is owed;
and a process starting on that state's database routes everything that is.
-/
theorem watermark_below_owed {db : DB} (hnext : db.routedThrough < db.nextSeq)
    (hsafe : Safe groupsFor db) {acts : List Act} {w : World}
    (h : Run (step groupsFor) (fun w a => ∀ e, Guarded groupsFor e w a) (World.start db) acts w) :
    Safe groupsFor w.db ∧ ∀ e, ¬ Owed groupsFor (replayUnrouted groupsFor .all w.db).1 e := by
  have hu : ∀ e, Unpassed groupsFor e w := by
    intro e
    exact unpassed_run (carried_start hnext) (unpassed_start (hsafe e))
      (h.mono fun _ _ hall => hall e)
  exact ⟨fun e => (hu e).stored, fun e => replayUnrouted_all (hu e).stored⟩

/-- A step that computes no mark, or computes it with nothing confirmed that is
journalled and nothing outside. -/
def unexposed (w : World) : Act → Bool
  | .markIfSettled =>
      w.committed.isEmpty && w.refused.isEmpty && w.inline.isEmpty && w.stranded.isEmpty
        && w.db.events.all fun e => w.router.confirmed < e.seq
  | _ => true

theorem guarded_of_unexposed {w : World} {a : Act} (h : unexposed w a = true) (e : Event) :
    Guarded groupsFor e w a := by
  cases a with
  | markIfSettled =>
      simp only [unexposed, Bool.and_eq_true, List.isEmpty_iff, List.all_eq_true,
        decide_eq_true_eq] at h
      obtain ⟨⟨⟨⟨hc, hr⟩, hi⟩, hs⟩, hconf⟩ := h
      intro routed groups hp ho hin
      exact ⟨hconf e ho.1, by simp [World.Outside, hc, hr, hi, hs]⟩
  | _ => trivial

/-! ### One producer at a time -/

/-- A catch-all rule with one destination. -/
def catchAll (e : Event) : List RoutedGroup := [{ event := e, sinkIDs := ["noc"] }]

/-- A trap as the listener hands it over. -/
def trap : Event :=
  { category := categoryTrap, kind := "trap.received", titleKey := "events.kind.trap.received" }

/-- One producer journals an event and hands it over; the router writes and settles it,
and the process starts again. -/
def oneProducer : List Act :=
  [.insert "a" "" 0 trap, .register 1, .send 1, .take, .flush, .routeOk, .markIfSettled,
    .writeOk, .settle, .restart .all]

theorem watermark_below_owed_oneProducer :
    ∃ w, exec (checked (step catchAll) unexposed) (World.start .empty) oneProducer = some w ∧
      w.db.routedThrough = 1 ∧ Safe catchAll w.db ∧
      ∀ e, ¬ Owed catchAll (replayUnrouted catchAll .all w.db).1 e := by
  have hend : (exec (checked (step catchAll) unexposed) (World.start .empty) oneProducer).map
      (fun w => w.db.routedThrough) = some 1 := by decide
  obtain ⟨w, hw, hmark⟩ := Option.map_eq_some_iff.mp hend
  exact ⟨w, hw, hmark, watermark_below_owed Nat.zero_lt_one safe_empty
    (run_of_checked (fun _ _ hc e => guarded_of_unexposed hc e) hw)⟩

/-! ### One producer overtakes another -/

/-- Two producers commit in order and the second reaches `accept` first: its flush
is written while the first still stands between `InsertEvent` and `accept`. -/
def overtaking : List Act :=
  [.insert "a" "" 0 trap, .insert "b" "" 0 trap, .register 2, .send 2, .take, .flush, .routeOk,
    .markIfSettled, .writeOk]

/-- **The claim without the guard fails.** The run `overtaking` ends with the watermark
at 2 while the event of seq 1 is journalled and has no row in the outbox. -/
theorem watermark_overtakes_producer :
    ¬ ∀ (acts : List Act) (w : World),
        Run (step catchAll) (fun _ _ => True) (World.start .empty) acts w →
        Safe catchAll w.db := by
  intro hall
  have hend : (exec (step catchAll) (World.start .empty) overtaking).map
      (fun w => behind catchAll w.db) = some [1] := by decide
  obtain ⟨w, hw, hbehind⟩ := Option.map_eq_some_iff.mp hend
  obtain ⟨e, _, hpassed⟩ := mem_behind.mp (hbehind ▸ List.mem_singleton.mpr rfl)
  exact hpassed (hall overtaking w (run_of_exec hw) e)

end SnmpLens.Router
