import Mathlib.Data.List.Nodup
import SnmpLens.Router.Watermark

/-!
# The router loses and duplicates nothing

An accepted event goes from the queue to the batch, from the batch into a flush, and
from a flush that fails into the deferred list. `copies` counts where an event of a given
seq is held, over every producer and the router; no step makes a second copy, and only
two sections ever shrink the in-flight set — `settle` after a write that contains the
seq, and the producer that was refused.

What the marks do is the other half. `settle` never returns less than it did; what
`markIfSettled` answers is what `settle` would return, and is an answer about a write
that may still fail: the next one can be lower.
-/

namespace SnmpLens.Router

open Events Machine

variable {groupsFor : Event → List RoutedGroup}

/-! ## Counting -/

/-- How many events of a seq a list holds. -/
def seqCount (es : List Event) (s : Nat) : Nat := (es.map Event.seq).count s

@[simp] theorem seqCount_nil (s : Nat) : seqCount [] s = 0 := rfl

@[simp] theorem seqCount_append (es fs : List Event) (s : Nat) :
    seqCount (es ++ fs) s = seqCount es s + seqCount fs s := by
  unfold seqCount
  rw [List.map_append, List.count_append]

theorem seqCount_cons (e : Event) (es : List Event) (s : Nat) :
    seqCount (e :: es) s = seqCount es s + if e.seq = s then 1 else 0 := by
  unfold seqCount
  rw [List.map_cons, List.count_cons]
  simp only [beq_iff_eq]

@[simp] theorem seqCount_singleton (e : Event) (s : Nat) :
    seqCount [e] s = if e.seq = s then 1 else 0 := by
  rw [seqCount_cons, seqCount_nil, Nat.zero_add]

variable {s : Nat}

theorem seqCount_pos {es : List Event} :
    0 < seqCount es s ↔ ∃ e ∈ es, e.seq = s := by
  unfold seqCount
  rw [List.count_pos_iff, List.mem_map]

theorem seqCount_mem {es : List Event} {e : Event} (h : e ∈ es) : 0 < seqCount es e.seq :=
  seqCount_pos.mpr ⟨e, h, rfl⟩

theorem seqCount_dropSeq (es : List Event) (t s : Nat) :
    seqCount (dropSeq es t) s = if t = s then 0 else seqCount es s := by
  induction es with
  | nil => simp [dropSeq]
  | cons e es ih =>
      have hcons : dropSeq (e :: es) t
          = if e.seq = t then dropSeq es t else e :: dropSeq es t := by
        by_cases h : e.seq = t <;> simp [dropSeq, h]
      rw [hcons, seqCount_cons]
      by_cases h : e.seq = t
      · rw [if_pos h, ih]
        split
        · rfl
        · rw [if_neg (by omega), Nat.add_zero]
      · rw [if_neg h, seqCount_cons, ih]
        split
        · rw [if_neg (by omega)]
        · rfl

/-- Taking an event out of a list and putting it into another makes no copy. -/
theorem seqCount_moved {es : List Event} {e : Event} (h : e ∈ es) (s : Nat) :
    seqCount (dropSeq es e.seq) s + seqCount [e] s ≤ seqCount es s := by
  rw [seqCount_dropSeq, seqCount_singleton]
  have := seqCount_mem h
  split
  · rename_i hs
    rw [← hs]
    omega
  · omega

theorem seqCount_dropSeq_le (es : List Event) (t s : Nat) :
    seqCount (dropSeq es t) s ≤ seqCount es s := by
  rw [seqCount_dropSeq]
  split <;> omega

theorem seqCount_defer1 (r : EventRouter) (e : Event) (s : Nat) :
    seqCount (r.defer1 e).deferred s ≤ seqCount r.deferred s + seqCount [e] s := by
  unfold EventRouter.defer1
  split
  · omega
  · simp

theorem seqCount_foldl_defer1 (es : List Event) (r : EventRouter) (s : Nat) :
    seqCount (es.foldl EventRouter.defer1 r).deferred s
      ≤ seqCount r.deferred s + seqCount es s := by
  induction es generalizing r with
  | nil => simp
  | cons e es ih =>
      have hstep := seqCount_defer1 r e s
      have hrest := ih (r.defer1 e)
      rw [List.foldl_cons, seqCount_cons]
      rw [seqCount_singleton] at hstep
      omega

/-! ## Where the events are -/

/-- What the router holds: its queue, its batch, the flush in progress and the deferred list. -/
def EventRouter.holds (r : EventRouter) : List Event :=
  r.queue ++ r.batch ++ r.phase.events ++ r.deferred

/-- The events `accept` has registered and not settled again. -/
def World.registered (w : World) : List Event := w.offered ++ w.refused ++ w.router.holds

/-- The events whose producer has not handed them over. -/
def World.withProducer (w : World) : List Event :=
  w.committed ++ w.offered ++ w.refused ++ w.inline

/-- In how many places an event of this seq is held. -/
def World.copies (w : World) (s : Nat) : Nat := seqCount w.held s

theorem copies_eq (w : World) (s : Nat) :
    w.copies s = seqCount w.committed s + seqCount w.inline s + seqCount w.registered s := by
  simp only [World.copies, World.held, World.registered, EventRouter.holds, seqCount_append]
  omega

/-- **One copy of each event**, registered while the router holds it. -/
structure Conserved (w : World) : Prop where
  once : ∀ s, w.copies s ≤ 1
  below : ∀ s, w.db.nextSeq ≤ s → w.copies s = 0
  tracked : ∀ s, 0 < seqCount w.registered s → s ∈ w.router.inflight
  settling : ∀ seqs, w.router.phase = .settling seqs →
    ∀ s ∈ seqs, w.copies s = 0 ∧ s < w.db.nextSeq

theorem conserved_start (db : DB) : Conserved (World.start db) where
  once := fun _ => Nat.zero_le _
  below := fun _ _ => rfl
  tracked := by simp [World.start, World.registered, newEventRouter, EventRouter.holds, Phase.events]
  settling := by simp [World.start, newEventRouter]

/-! ## What a step does to the copies -/

/-- The step belongs to the life of one process. -/
def Act.whileRunning : Act → Bool
  | .restart _ => false
  | _ => true

variable {w w' : World} {a : Act}

/-- The seq an `InsertEvent` hands out is the only one of which a step makes a copy. -/
theorem copies_moves (h : Moves groupsFor w a w') (s : Nat) :
    w'.copies s ≤ w.copies s ∨ s = w.db.nextSeq ∧ w.db.nextSeq < w'.db.nextSeq
      ∧ w'.copies s = w.copies s + 1 := by
  simp only [World.copies, World.held, seqCount_append]
  cases h with
  | @insert uuid now payload e x hv heq =>
      by_cases hs : s = w.db.nextSeq
      · refine .inr ⟨hs, Nat.lt_succ_self _, ?_⟩
        simp only [seqCount_append, seqCount_singleton, if_pos hs.symm]
        omega
      · refine .inl ?_
        simp only [seqCount_append, seqCount_singleton, if_neg (Ne.symm hs)]
        omega
  | register he | send he _ | refuse he _ | settleRefused he =>
      have := seqCount_moved he s
      exact .inl (by simp only [seqCount_append, EventRouter.register, EventRouter.settle]; omega)
  | @inlineReturn e he =>
      have := seqCount_dropSeq_le w.inline e.seq s
      exact .inl (by simp only; omega)
  | take hphase hqueue =>
      exact .inl (by simp only [hqueue, seqCount_append, seqCount_cons, seqCount_nil]; omega)
  | takeDeferred hphase =>
      have hsplit : seqCount w.router.deferred s
          = seqCount (w.router.deferred.take (routeBatchSize - w.router.batch.length)) s
            + seqCount (w.router.deferred.drop (routeBatchSize - w.router.batch.length)) s := by
        rw [← seqCount_append, List.take_append_drop]
      exact .inl (by simp only [EventRouter.takeDeferred, seqCount_append]; omega)
  | flush hphase _ | routeOk hphase | markIfSettled hphase | writeOk hphase | settle hphase =>
      exact .inl (by
        simp only [EventRouter.settle, hphase, Phase.events, seqCount_append, seqCount_cons,
          seqCount_nil]; omega)
  | @routeFail e pending routed groups hphase =>
      have := seqCount_defer1 w.router e s
      rw [defer1_frame]
      exact .inl (by
        simp only [hphase, Phase.events, seqCount_append, seqCount_cons, seqCount_nil] at *; omega)
  | @writeFail routed groups mark hphase =>
      have := seqCount_foldl_defer1 routed w.router s
      rw [foldl_defer1_frame]
      exact .inl (by simp only [hphase, Phase.events, seqCount_nil]; omega)
  | restart => exact .inl (Nat.zero_le _)
  | _ => exact .inl (Nat.le_refl _)

/-- What is registered was registered, or `accept` has just done so; what is settled again
is not registered any more. -/
theorem registered_moves (h : Moves groupsFor w a w') (hc : Conserved w) (s : Nat)
    (hs : 0 < seqCount w'.registered s) :
    s ∈ w'.router.inflight := by
  have honce := hc.once s
  rw [copies_eq] at honce
  have hold := hc.tracked s
  simp only [World.registered, EventRouter.holds, seqCount_append] at hs hold honce
  cases h with
  | @register e he =>
      refine mem_inflight_register.mpr ?_
      by_cases hse : s = e.seq
      · exact .inl hse
      · refine .inr (hold ?_)
        simp only [EventRouter.register, seqCount_append, seqCount_singleton,
          if_neg (Ne.symm hse)] at hs
        omega
  | send he _ | refuse he _ =>
      have := seqCount_moved he s
      simp only [seqCount_append] at hs
      exact hold (by omega)
  | @settleRefused e he =>
      simp only [EventRouter.settle, seqCount_dropSeq] at hs
      have hne : s ≠ e.seq := by
        -- the refused event had the only copy
        intro heq
        have hpos := seqCount_mem he
        rw [if_pos heq.symm] at hs
        rw [← heq] at hpos
        omega
      rw [if_neg (Ne.symm hne)] at hs
      exact mem_without.mpr ⟨hold (by omega), by simpa using hne⟩
  | take hphase hqueue =>
      refine hold ?_
      simp only [hqueue, seqCount_append, seqCount_cons, seqCount_nil] at hs ⊢
      omega
  | takeDeferred hphase =>
      have hsplit : seqCount w.router.deferred s
          = seqCount (w.router.deferred.take (routeBatchSize - w.router.batch.length)) s
            + seqCount (w.router.deferred.drop (routeBatchSize - w.router.batch.length)) s := by
        rw [← seqCount_append, List.take_append_drop]
      simp only [EventRouter.takeDeferred, seqCount_append] at hs
      exact hold (by omega)
  | flush hphase _ | routeOk hphase | markIfSettled hphase | writeOk hphase =>
      refine hold ?_
      simp only [hphase, Phase.events, seqCount_append, seqCount_cons, seqCount_nil] at hs ⊢
      omega
  | @routeFail e pending routed groups hphase =>
      have hdef := seqCount_defer1 w.router e s
      rw [defer1_frame] at hs ⊢
      refine hold ?_
      simp only [hphase, Phase.events, seqCount_append, seqCount_cons, seqCount_nil] at hs hdef ⊢
      omega
  | @writeFail routed groups mark hphase =>
      have hdef := seqCount_foldl_defer1 routed w.router s
      rw [foldl_defer1_frame] at hs ⊢
      refine hold ?_
      simp only [hphase, Phase.events, seqCount_nil] at hs ⊢
      omega
  | @settle seqs hphase =>
      simp only [EventRouter.settle, Phase.events, seqCount_nil] at hs
      refine mem_without.mpr ⟨hold (by omega), fun hmem => ?_⟩
      -- what a write has settled is held nowhere
      have hzero := (hc.settling seqs hphase s hmem).1
      rw [copies_eq] at hzero
      simp only [World.registered, EventRouter.holds, seqCount_append] at hzero
      omega
  | restart => exact absurd hs (Nat.lt_irrefl 0)
  | _ => exact hold (by omega)

/-- A flush settles what it was writing, and nothing that is held anywhere else. -/
theorem settling_moves (h : Moves groupsFor w a w') (hc : Conserved w) {seqs : List Nat}
    (hp : w'.router.phase = .settling seqs) (hs : s ∈ seqs) :
    w.router.phase = .settling seqs ∨
      a = .writeOk ∧ 0 < seqCount w.router.phase.events s ∧ w'.copies s = 0 := by
  cases h with
  | @writeOk routed groups mark hphase =>
      refine .inr ⟨rfl, ?_⟩
      injection hp with hseqs
      obtain ⟨e, he, rfl⟩ := List.mem_map.mp (hseqs ▸ hs)
      have hpos := seqCount_mem he
      have honce := hc.once e.seq
      simp only [World.copies, World.held, hphase, Phase.events, seqCount_append,
        seqCount_nil] at honce ⊢
      exact ⟨hpos, by omega⟩
  | routeFail hphase => cases hp
  | writeFail hphase => cases hp
  | flush => cases hp
  | routeOk => cases hp
  | markIfSettled => cases hp
  | settle => cases hp
  | restart => cases hp
  | _ => exact .inl hp

/-- **Every step keeps one copy of each event.** -/
theorem conserved_step (hc : Conserved w) (hs : step groupsFor w a = some w') :
    Conserved w' := by
  have h := step_moves hs
  refine ⟨?_, ?_, registered_moves h hc, ?_⟩
  · intro s
    have hold := hc.once s
    rcases copies_moves h s with hle | ⟨rfl, -, heq⟩
    · omega
    · have := hc.below w.db.nextSeq (Nat.le_refl _)
      omega
  · intro s hge
    have hnext := nextSeq_moves h
    have hold := hc.below s (by omega)
    rcases copies_moves h s with hle | ⟨rfl, hlt, -⟩
    · omega
    · omega
  · intro seqs hp s hmem
    have hnext := nextSeq_moves h
    have hcopies := copies_moves h s
    rcases settling_moves h hc hp hmem with hphase | ⟨-, hpos, hzero⟩
    · obtain ⟨hzero, hlt⟩ := hc.settling seqs hphase s hmem
      rcases hcopies with hle | ⟨rfl, -, -⟩
      · exact ⟨by omega, by omega⟩
      · omega
    · refine ⟨hzero, ?_⟩
      -- the seq was held, so it had been handed out
      rcases Nat.lt_or_ge s w.db.nextSeq with hlt | hge
      · omega
      · have hnone := hc.below s hge
        simp only [World.copies, World.held, seqCount_append] at hnone
        omega

variable {acts : List Act}

theorem conserved_run {ok : World → Act → Prop} (h : Run (step groupsFor) ok w acts w')
    (hc : Conserved w) : Conserved w' :=
  h.invariant hc fun _ _ _ hi _ hs => conserved_step hi hs

/-! ## An accepted event is owed until it is written -/

/-- No producer has this seq, nor will have. -/
def HandedOver (w : World) (s : Nat) : Prop :=
  seqCount w.withProducer s = 0 ∧ s < w.db.nextSeq

theorem handedOver_send (hc : Conserved w) (hs : step groupsFor w (.send s) = some w') :
    HandedOver w' s ∧ s ∈ w'.router.inflight := by
  have hm := step_moves hs
  have hc' := conserved_step hc hs
  cases hm with
  | @send e he hroom =>
      have hpos := seqCount_mem he
      have honce := hc.once e.seq
      refine ⟨⟨?_, ?_⟩, ?_⟩
      · simp only [World.copies, World.held, World.withProducer, seqCount_append,
          seqCount_dropSeq, if_true] at honce ⊢
        omega
      · rcases Nat.lt_or_ge e.seq w.db.nextSeq with hlt | hge
        · exact hlt
        · have hnone := hc.below e.seq hge
          simp only [World.copies, World.held, seqCount_append] at hnone
          omega
      · refine hc'.tracked e.seq ?_
        simp only [World.registered, EventRouter.holds, seqCount_append, seqCount_singleton,
          if_true]
        omega

theorem handedOver_moves (h : Moves groupsFor w a w') (hp : a.whileRunning = true)
    (hh : HandedOver w s) : HandedOver w' s := by
  obtain ⟨hzero, hlt⟩ := hh
  have hnext := nextSeq_moves h
  refine ⟨?_, by omega⟩
  simp only [World.withProducer, seqCount_append] at hzero ⊢
  cases h with
  | insert hv heq =>
      simp only [seqCount_append, seqCount_singleton]
      rw [if_neg (by omega)]
      omega
  | register he =>
      have := seqCount_moved he s
      simp only [seqCount_append]
      omega
  | @send e he _ =>
      have := seqCount_dropSeq_le w.offered e.seq s
      simp only
      omega
  | refuse he _ =>
      have := seqCount_moved he s
      simp only [seqCount_append]
      omega
  | settleRefused he =>
      have := seqCount_moved he s
      simp only [seqCount_append]
      omega
  | @inlineReturn e he =>
      have := seqCount_dropSeq_le w.inline e.seq s
      simp only
      omega
  | restart => exact absurd hp Bool.false_ne_true
  | _ => exact hzero

/-- Within one process a seq leaves the in-flight set in a settle, after its own write or for
its own producer. -/
theorem inflight_moves (h : Moves groupsFor w a w') (hp : a.whileRunning = true)
    (hin : s ∈ w.router.inflight) :
    s ∈ w'.router.inflight ∨ (∃ seqs, w.router.phase = .settling seqs ∧ s ∈ seqs)
      ∨ 0 < seqCount w.withProducer s := by
  cases h with
  | register => exact .inl (mem_inflight_register.mpr (.inr hin))
  | @settleRefused e he =>
      by_cases hs : s = e.seq
      · refine .inr (.inr (seqCount_pos.mpr ⟨e, ?_, hs.symm⟩))
        simp [World.withProducer, he]
      · exact .inl (mem_without.mpr ⟨hin, by simpa using hs⟩)
  | @settle seqs hphase =>
      by_cases hs : s ∈ seqs
      · exact .inr (.inl ⟨seqs, hphase, hs⟩)
      · exact .inl (mem_without.mpr ⟨hin, hs⟩)
  | routeFail => rw [defer1_frame]; exact .inl hin
  | writeFail => rw [foldl_defer1_frame]; exact .inl hin
  | restart => exact absurd hp Bool.false_ne_true
  | _ => exact .inl hin

/-- One of these steps is an `enqueueRouted` that succeeds, with the event of this seq in
what it writes — among the groups it selected, if it selected any. -/
inductive WrittenDuring (groupsFor : Event → List RoutedGroup) (s : Nat) : World → List Act → Prop
  | now {w : World} {as : List Act} {routed : List Event} {groups : List RoutedGroup} {mark : Nat} :
      w.router.phase = .writing routed groups mark → s ∈ routed.map Event.seq →
      WrittenDuring groupsFor s w (.writeOk :: as)
  | later {w w' : World} {a : Act} {as : List Act} : step groupsFor w a = some w' →
      WrittenDuring groupsFor s w' as → WrittenDuring groupsFor s w (a :: as)

/-- **The run lemma.** -/
theorem inflight_run (h : Run (step groupsFor) (fun _ a => a.whileRunning = true) w acts w')
    (hc : Conserved w) (hh : HandedOver w s) (hin : s ∈ w.router.inflight)
    (hnot : ∀ seqs, w.router.phase = .settling seqs → s ∉ seqs) :
    s ∈ w'.router.inflight ∨ WrittenDuring groupsFor s w acts := by
  induction h with
  | refl => exact .inl hin
  | @head w v u a as hok hs hrest ih =>
      have hm := step_moves hs
      have hin' : s ∈ v.router.inflight := by
        rcases inflight_moves hm hok hin with hin' | ⟨seqs, hphase, hmem⟩ | hpos
        · exact hin'
        · exact absurd hmem (hnot seqs hphase)
        · exact absurd hh.1 (Nat.ne_of_gt hpos)
      by_cases hset : ∃ seqs, v.router.phase = .settling seqs ∧ s ∈ seqs
      · -- this step is the write
        obtain ⟨seqs, hphase, hmem⟩ := hset
        rcases settling_moves hm hc hphase hmem with hphase' | ⟨rfl, -, -⟩
        · exact absurd hmem (hnot seqs hphase')
        · cases hm with
          | @writeOk routed groups mark hwriting =>
              injection hphase with hseqs
              exact .inr (.now hwriting (hseqs ▸ hmem))
      · have hnot' : ∀ seqs, v.router.phase = .settling seqs → s ∉ seqs :=
          fun seqs hphase hmem => hset ⟨seqs, hphase, hmem⟩
        rcases ih (conserved_step hc hs) (handedOver_moves hm hok hh) hin' hnot' with hend | hw
        · exact .inl hend
        · exact .inr (.later hs hw)

/-! ## The watermarks -/

/-- The watermark the call this step is returns, if it returns one. -/
def answered (w : World) : Act → Option Nat
  | .markIfSettled =>
      match w.router.phase with
      | .routing [] routed _ => some (w.router.markIfSettled (routed.map Event.seq))
      | _ => none
  | .settle =>
      match w.router.phase with
      | .settling seqs => some (w.router.settle seqs).confirmed
      | _ => none
  | .settleRefused seq => some (w.router.settle [seq]).confirmed
  | _ => none

/-- The watermarks a run is answered, by the calls that are asked about. -/
def answers (groupsFor : Event → List RoutedGroup) (asked : Act → Bool) :
    World → List Act → List Nat
  | _, [] => []
  | w, a :: as =>
      match step groupsFor w a with
      | none => []
      | some w' => (if asked a then (answered w a).toList else []) ++ answers groupsFor asked w' as

/-- The calls of `settle`. -/
def isSettle : Act → Bool
  | .settle => true
  | .settleRefused _ => true
  | _ => false

/-- **The two computations agree**, whatever is in flight. -/
theorem markIfSettled_eq_settle (r : EventRouter) (seqs : List Nat) :
    r.markIfSettled seqs = (r.settle seqs).confirmed := by
  rw [markIfSettled_eq, confirmed_settle]

theorem confirmed_moves (h : Moves groupsFor w a w') (hp : a.whileRunning = true) :
    w.router.confirmed ≤ w'.router.confirmed := by
  cases h with
  | settleRefused => rw [confirmed_settle]; exact Nat.le_max_left _ _
  | @settle seqs hphase =>
      have hle : w.router.confirmed ≤ (w.router.settle seqs).confirmed := by
        rw [confirmed_settle]
        exact Nat.le_max_left _ _
      exact hle
  | routeFail => exact Nat.le_of_eq (by rw [defer1_frame])
  | writeFail => exact Nat.le_of_eq (by rw [foldl_defer1_frame])
  | restart => exact absurd hp Bool.false_ne_true
  | _ => exact Nat.le_refl _

theorem routedThrough_moves (h : Moves groupsFor w a w') (hp : a.whileRunning = true) :
    w.db.routedThrough ≤ w'.db.routedThrough := by
  cases h with
  | writeOk => rw [routedThrough_enqueueRouted]; exact Nat.le_max_left _ _
  | restart => exact absurd hp Bool.false_ne_true
  | _ => exact Nat.le_refl _

theorem routedThrough_le_of_run
    (h : Run (step groupsFor) (fun _ a => a.whileRunning = true) w acts w') :
    w.db.routedThrough ≤ w'.db.routedThrough := by
  induction h with
  | refl => exact Nat.le_refl _
  | head hok hs _ ih => exact Nat.le_trans (routedThrough_moves (step_moves hs) hok) ih

theorem answered_settle (h : Moves groupsFor w a w') (ha : isSettle a = true) :
    answered w a = some w'.router.confirmed := by
  cases h with
  | settleRefused => rfl
  | settle hphase => simp only [answered, hphase]
  | _ => exact absurd ha Bool.false_ne_true

/-- No settle of a run answers less than the one before it. -/
theorem answers_settle_ascending
    (h : Run (step groupsFor) (fun _ a => a.whileRunning = true) w acts w') :
    (answers groupsFor isSettle w acts).Pairwise (· ≤ ·)
      ∧ ∀ m ∈ answers groupsFor isSettle w acts, w.router.confirmed ≤ m := by
  induction h with
  | refl => exact ⟨.nil, by simp [answers]⟩
  | @head w v u a as hok hs _ ih =>
      have hm := step_moves hs
      have hle := confirmed_moves hm hok
      obtain ⟨hasc, hge⟩ := ih
      simp only [answers, hs]
      by_cases ha : isSettle a = true
      · rw [if_pos ha, answered_settle hm ha]
        simp only [Option.toList_some, List.singleton_append, List.pairwise_cons, List.mem_cons]
        refine ⟨⟨hge, hasc⟩, ?_⟩
        rintro m (rfl | hmem)
        · exact hle
        · exact Nat.le_trans hle (hge m hmem)
      · rw [if_neg ha, List.nil_append]
        exact ⟨hasc, fun m hmem => Nat.le_trans hle (hge m hmem)⟩

/-! ## Conservation -/

/--
**The router conserves what it accepts.**

In every state of every run of a process: an event `accept` returned true for is in flight
until an `enqueueRouted` with it has succeeded; queue, batch, flush and deferred list hold
each seq once at most, and only seqs in flight; `settle` has never returned less than before
and the stored watermark has never gone down; and whatever is asked, `markIfSettled` answers
what `settle` would return there.
-/
theorem router_conserves {db : DB} {acts : List Act} {w : World}
    (h : Run (step groupsFor) (fun _ a => a.whileRunning = true) (World.start db) acts w) :
    (∀ before after v v' s, acts = before ++ .send s :: after →
      exec (step groupsFor) (World.start db) before = some v →
      step groupsFor v (.send s) = some v' →
      s ∈ w.router.inflight ∨ WrittenDuring groupsFor s v' after)
    ∧ (w.router.holds.map Event.seq).Nodup
    ∧ (∀ e ∈ w.router.holds, e.seq ∈ w.router.inflight)
    ∧ (answers groupsFor isSettle (World.start db) acts).Pairwise (· ≤ ·)
    ∧ db.routedThrough ≤ w.db.routedThrough
    ∧ ∀ seqs, w.router.markIfSettled seqs = (w.router.settle seqs).confirmed := by
  have hc := conserved_run h (conserved_start db)
  refine ⟨?_, ?_, ?_, (answers_settle_ascending h).1, routedThrough_le_of_run h,
    markIfSettled_eq_settle w.router⟩
  · intro before after v v' s hacts hbefore hsend
    subst hacts
    obtain ⟨t, hrun, hrest⟩ := h.split
    have ht : t = v := by
      have hexec := exec_of_run hrun
      rw [hbefore] at hexec
      exact (Option.some.inj hexec).symm
    subst ht
    cases hrest with
    | @head _ x _ _ _ hok hs hafter =>
        obtain rfl : x = v' := Option.some.inj (hs.symm.trans hsend)
        have hct := conserved_run hrun (conserved_start db)
        obtain ⟨hh, hin⟩ := handedOver_send hct hs
        refine inflight_run hafter (conserved_step hct hs) hh hin ?_
        intro seqs hphase hmem
        -- the flush cannot be settling what has just been sent
        have hzero := ((conserved_step hct hs).settling seqs hphase s hmem).1
        cases step_moves hs with
        | @send e he hroom =>
            simp only [World.copies, World.held, seqCount_append, seqCount_singleton] at hzero
            simp at hzero
  · refine List.nodup_iff_count_le_one.mpr fun s => ?_
    have honce := hc.once s
    rw [copies_eq] at honce
    simp only [World.registered, seqCount_append] at honce
    have : (w.router.holds.map Event.seq).count s = seqCount w.router.holds s := rfl
    omega
  · intro e he
    refine hc.tracked e.seq ?_
    have hpos := seqCount_mem he
    simp only [World.registered, seqCount_append]
    omega

/-- **What is owed is somewhere, and in one place.** In every run, over any number of processes, an
event with a delivery still to be written is in flight or outside the router, and none is held
twice. -/
theorem owed_held_once {db : DB} (hnext : db.routedThrough < db.nextSeq) {acts : List Act} {w : World}
    (h : Run (step groupsFor) (fun _ _ => True) (World.start db) acts w) :
    (∀ s, w.copies s ≤ 1) ∧
      ∀ e, Owed groupsFor w.db e → e.seq ∈ w.router.inflight ∨ w.Outside e := by
  have hcarried : Carried groupsFor w :=
    h.invariant (carried_start hnext) fun _ _ _ hi _ hs => carried_step hi hs
  exact ⟨(conserved_run h (conserved_start db)).once, hcarried.carried⟩

/-! ### A write that fails -/

/-- Two events are handed over; the batch with the first cannot be written, and the second is
flushed while the first is deferred. -/
def failedThenNext : List Act :=
  [.insert "a" "" 0 trap, .insert "b" "" 0 trap, .register 1, .send 1, .register 2, .send 2,
    .take, .flush, .routeOk, .markIfSettled, .writeFail,
    .take, .flush, .routeOk, .markIfSettled, .writeOk, .settle]

theorem router_conserves_failedThenNext :
    ∃ w, exec (checked (step catchAll) fun _ a => a.whileRunning) (World.start .empty) failedThenNext
        = some w ∧ w.router.inflight = [1] ∧ (w.router.holds.map Event.seq).Nodup ∧
      (answers catchAll isSettle (World.start .empty) failedThenNext).Pairwise (· ≤ ·) := by
  have hend : (exec (checked (step catchAll) fun _ a => a.whileRunning) (World.start .empty)
      failedThenNext).map (fun w => w.router.inflight) = some [1] := by decide
  obtain ⟨w, hw, hin⟩ := Option.map_eq_some_iff.mp hend
  obtain ⟨-, hnodup, -, hasc, -⟩ := router_conserves (run_of_checked (fun _ _ hc => hc) hw)
  exact ⟨w, hw, hin, hnodup, hasc⟩

theorem owed_held_once_failedThenNext : ∃ w,
    exec (step catchAll) (World.start .empty) failedThenNext = some w ∧
      (∀ s, w.copies s ≤ 1) ∧
        ∀ e, Owed catchAll w.db e → e.seq ∈ w.router.inflight ∨ w.Outside e := by
  have hend : (exec (step catchAll) (World.start .empty) failedThenNext).isSome = true := by decide
  obtain ⟨w, hw⟩ := Option.isSome_iff_exists.mp hend
  exact ⟨w, hw, owed_held_once (by decide) (run_of_exec hw)⟩

/-- One producer is overtaken by the other, and registers its event between the write of the
other's and the settle after it. -/
def registeredAfterWrite : List Act :=
  [.insert "a" "" 0 trap, .insert "b" "" 0 trap, .register 2, .send 2, .take, .flush, .routeOk,
    .markIfSettled, .writeOk, .register 1, .settle]

/-- **Not every watermark a router returns is above the last one.** The write `markIfSettled`
answered for may fail, and the next mark then has the failed batch to stay below; and an
event registered in between makes `settle` return less than the mark just written. -/
theorem answers_go_back :
    (¬ ∀ (acts : List Act) (w : World),
      Run (step catchAll) (fun _ a => a.whileRunning = true) (World.start .empty) acts w →
      (answers catchAll (fun _ => true) (World.start .empty) acts).Pairwise (· ≤ ·)) ∧
    answers catchAll (fun _ => true) (World.start .empty) failedThenNext = [1, 0, 0] ∧
    answers catchAll (fun _ => true) (World.start .empty) registeredAfterWrite = [2, 0] := by
  have hfailed : answers catchAll (fun _ => true) (World.start .empty) failedThenNext
      = [1, 0, 0] := by decide
  refine ⟨?_, hfailed, by decide⟩
  intro hall
  have hend : (exec (checked (step catchAll) fun _ a => a.whileRunning) (World.start .empty)
      failedThenNext).map (fun w => w.router.inflight) = some [1] := by decide
  obtain ⟨w, hw, -⟩ := Option.map_eq_some_iff.mp hend
  have hasc := hall failedThenNext w (run_of_checked (fun _ _ hc => hc) hw)
  rw [hfailed] at hasc
  exact absurd hasc (by decide)

end SnmpLens.Router
