import SnmpLens.Router.Watermark

/-!
# A replay that stopped early

`replayUnrouted` stops at the first event it cannot route, and leaves the
watermark below it. Nothing then tells the router about it: its in-flight set is
empty, so its marks are computed from the live events alone, and every live event
was journalled after the one the replay stopped at. So the stop holds for exactly
as long as the process writes no flush; the first one it writes passes the event.
-/

namespace SnmpLens.Router

open Events Machine

variable {groupsFor : Event → List RoutedGroup}

/-- A step of the running process: everything but its end. -/
def Act.inProcess : Act → Prop
  | .restart _ => False
  | _ => True

/-! ## Live events are above what was journalled before -/

/-- Above `k` stands everything the process carries, everything in flight and every mark
it is going to write. -/
structure Live (k : Nat) (w : World) : Prop where
  next : k < w.db.nextSeq
  held : ∀ x ∈ w.held, k < x.seq
  inflight : ∀ s ∈ w.router.inflight, k < s
  accepted : ∀ x ∈ w.router.queue ++ w.router.deferred ++ w.router.batch ++ w.offered,
    x.seq ≤ w.router.highest
  routing : ∀ pending routed groups, w.router.phase = .routing pending routed groups →
    k < w.router.highest ∧ ∀ x ∈ pending ++ routed, x.seq ≤ w.router.highest
  writing : ∀ routed groups mark, w.router.phase = .writing routed groups mark →
    k ≤ mark ∧ ∀ x ∈ routed, x.seq ≤ w.router.highest

variable {k : Nat}

theorem live_start {db : DB} (hk : k < db.nextSeq) : Live k (World.start db) where
  next := hk
  held := by simp [World.held, World.start, newEventRouter, Phase.events]
  inflight := by simp [World.start, newEventRouter]
  accepted := by simp [World.start, newEventRouter]
  routing := by simp [World.start, newEventRouter]
  writing := by simp [World.start, newEventRouter]

/-- With only live seqs in flight and one accepted, a mark is not below `k`. -/
theorem le_markIfSettled {r : EventRouter} (hin : ∀ s ∈ r.inflight, k < s) (hhi : k < r.highest)
    (seqs : List Nat) : k ≤ r.markIfSettled seqs := by
  rw [markIfSettled_eq]
  refine Nat.le_trans ?_ (Nat.le_max_right _ _)
  unfold markBelow
  split
  · rename_i hl
    have hlt := hin _ (mem_without.mp (lowest_mem hl)).1
    omega
  · exact Nat.le_of_lt hhi

variable {w w' : World} {a : Act}

theorem held_live (hm : Moves groupsFor w a w') (hl : Live k w) :
    ∀ x ∈ w'.held, k < x.seq := by
  intro x hx
  rcases held_moves hm x hx with hold | ⟨y, _, rfl⟩
  · exact hl.held x hold
  · exact hl.next

/-! ## What one step does to what the router has taken on -/

/-- What was registered and is not in a flush. -/
def World.accepted (w : World) : List Event :=
  w.router.queue ++ w.router.deferred ++ w.router.batch ++ w.offered

theorem mem_accepted {w : World} {x : Event} :
    x ∈ w.accepted ↔ x ∈ w.router.queue ∨ x ∈ w.router.deferred ∨ x ∈ w.router.batch ∨
      x ∈ w.offered := by
  unfold World.accepted
  simp only [List.mem_append, or_assoc]

theorem highest_moves (hm : Moves groupsFor w a w') (ha : a.inProcess) :
    w.router.highest ≤ w'.router.highest := by
  cases hm with
  | @register e _ =>
      show _ ≤ (w.router.register e.seq).highest
      rw [highest_register]
      exact Nat.le_max_left _ _
  | routeFail hp => exact Nat.le_of_eq (by rw [defer1_frame])
  | writeFail hp => exact Nat.le_of_eq (by rw [foldl_defer1_frame])
  | restart => exact ha.elim
  | _ => exact Nat.le_refl _

theorem mem_inflight_moves (hm : Moves groupsFor w a w') :
    ∀ s ∈ w'.router.inflight, s ∈ w.router.inflight ∨ ∃ e ∈ w.committed, s = e.seq := by
  intro s hs
  cases hm with
  | @register e he =>
      rcases mem_inflight_register.mp hs with rfl | h
      · exact .inr ⟨e, he, rfl⟩
      · exact .inl h
  | settleRefused => exact .inl (mem_without.mp hs).1
  | settle hp => exact .inl (mem_without.mp hs).1
  | routeFail hp =>
      rw [defer1_frame] at hs
      exact .inl hs
  | writeFail hp =>
      rw [foldl_defer1_frame] at hs
      exact .inl hs
  | restart => simp [World.start, newEventRouter] at hs
  | _ => exact .inl hs

/-- What is taken on was taken on before, or comes back from a flush, or was just registered. -/
theorem accepted_moves (hm : Moves groupsFor w a w') :
    ∀ x ∈ w'.accepted, x ∈ w.accepted ∨ x ∈ w.router.phase.events ∨
      x ∈ w.committed ∧ x.seq ≤ w'.router.highest := by
  intro x hx
  rw [mem_accepted] at hx
  -- an event only changes its place in most steps
  have hkept : x ∈ w.router.queue ∨ x ∈ w.router.deferred ∨ x ∈ w.router.batch ∨ x ∈ w.offered →
      x ∈ w.accepted ∨ x ∈ w.router.phase.events ∨
        x ∈ w.committed ∧ x.seq ≤ w'.router.highest := fun h => .inl (mem_accepted.mpr h)
  cases hm with
  | @register e he =>
      rcases hx with h | h | h | h
      · exact hkept (.inl h)
      · exact hkept (.inr (.inl h))
      · exact hkept (.inr (.inr (.inl h)))
      · rcases List.mem_append.mp h with h | h
        · exact hkept (.inr (.inr (.inr h)))
        · obtain rfl := List.mem_singleton.mp h
          refine .inr (.inr ⟨he, ?_⟩)
          show _ ≤ (w.router.register x.seq).highest
          rw [highest_register]
          exact Nat.le_max_right _ _
  | @send e he _ =>
      simp only [List.mem_append, List.mem_singleton, mem_dropSeq] at hx
      rcases hx with (h | rfl) | h | h | h
      · exact hkept (.inl h)
      · exact hkept (.inr (.inr (.inr he)))
      · exact hkept (.inr (.inl h))
      · exact hkept (.inr (.inr (.inl h)))
      · exact hkept (.inr (.inr (.inr h.1)))
  | refuse he _ =>
      simp only [mem_dropSeq] at hx
      exact hkept (hx.imp_right fun h => h.imp_right fun h => h.imp_right And.left)
  | take hp hq =>
      simp only [List.mem_append, List.mem_singleton] at hx
      rcases hx with h | h | (h | rfl) | h
      · exact hkept (.inl (by rw [hq]; exact List.mem_cons_of_mem _ h))
      · exact hkept (.inr (.inl h))
      · exact hkept (.inr (.inr (.inl h)))
      · exact hkept (.inl (by rw [hq]; exact List.mem_cons_self))
      · exact hkept (.inr (.inr (.inr h)))
  | takeDeferred hp =>
      simp only [EventRouter.takeDeferred, List.mem_append] at hx
      rcases hx with h | h | (h | h) | h
      · exact hkept (.inl h)
      · exact hkept (.inr (.inl (List.mem_of_mem_drop h)))
      · exact hkept (.inr (.inr (.inl h)))
      · exact hkept (.inr (.inl (List.mem_of_mem_take h)))
      · exact hkept (.inr (.inr (.inr h)))
  | flush hp hne =>
      simp only [List.not_mem_nil, false_or] at hx
      exact hkept (hx.imp_right fun h => h.imp_right Or.inr)
  | @routeFail e pending routed groups hp =>
      rw [defer1_frame] at hx
      rcases hx with h | h | h | h
      · exact hkept (.inl h)
      · rcases mem_deferred_defer1 h with h | rfl
        · exact hkept (.inr (.inl h))
        · exact .inr (.inl (by rw [hp]; exact List.mem_cons_self))
      · exact hkept (.inr (.inr (.inl h)))
      · exact hkept (.inr (.inr (.inr h)))
  | @writeFail routed groups mark hp =>
      rw [foldl_defer1_frame] at hx
      rcases hx with h | h | h | h
      · exact hkept (.inl h)
      · rcases mem_deferred_foldl h with h | h
        · exact hkept (.inr (.inl h))
        · exact .inr (.inl (by rw [hp]; exact h))
      · exact hkept (.inr (.inr (.inl h)))
      · exact hkept (.inr (.inr (.inr h)))
  | restart => simp [World.start, newEventRouter] at hx
  | _ => exact hkept hx

theorem routing_moves (hm : Moves groupsFor w a w') {pending routed : List Event}
    {groups : List RoutedGroup} (hp' : w'.router.phase = .routing pending routed groups) :
    (∃ p r g, w.router.phase = .routing p r g ∧ ∀ x ∈ pending ++ routed, x ∈ p ++ r) ∨
      w.router.batch ≠ [] ∧ ∀ x ∈ pending ++ routed, x ∈ w.router.batch := by
  cases hm with
  | flush hp hne =>
      injection hp' with h1 h2 _
      refine .inr ⟨hne, ?_⟩
      rw [← h1, ← h2, List.append_nil]
      exact fun x hx => hx
  | @routeOk e p r g hp =>
      injection hp' with h1 h2 _
      refine .inl ⟨_, _, _, hp, ?_⟩
      intro x hx
      rw [← h1, ← h2] at hx
      simp only [List.mem_append, List.mem_cons, List.not_mem_nil, or_false] at hx ⊢
      rcases hx with h | h | h
      · exact .inl (.inr h)
      · exact .inr h
      · exact .inl (.inl h)
  | @routeFail e p r g hp =>
      injection hp' with h1 h2 _
      refine .inl ⟨_, _, _, hp, ?_⟩
      rw [← h1, ← h2]
      exact fun x hx => List.mem_cons_of_mem _ hx
  | markIfSettled hp => cases hp'
  | writeOk hp => cases hp'
  | writeFail hp => cases hp'
  | settle hp => cases hp'
  | restart => cases hp'
  | _ => exact .inl ⟨_, _, _, hp', fun x hx => hx⟩

/-- A flush that is being written was so before, or its mark has just been computed. -/
theorem writing_moves (hm : Moves groupsFor w a w') {routed : List Event}
    {groups : List RoutedGroup} {mark : Nat} (hp' : w'.router.phase = .writing routed groups mark) :
    w.router.phase = .writing routed groups mark ∨
      w.router.phase = .routing [] routed groups ∧
        mark = w.router.markIfSettled (routed.map Event.seq) := by
  cases hm with
  | flush hp hne => cases hp'
  | routeOk hp => cases hp'
  | routeFail hp => cases hp'
  | @markIfSettled r g hp =>
      injection hp' with h1 h2 h3
      rw [← h1, ← h2, ← h3]
      exact .inr ⟨hp, rfl⟩
  | writeOk hp => cases hp'
  | writeFail hp => cases hp'
  | settle hp => cases hp'
  | restart => cases hp'
  | _ => exact .inl hp'

theorem Live.committed {w : World} (hl : Live k w) : ∀ e ∈ w.committed, k < e.seq :=
  fun e he => hl.held e (by simp [World.held, he])

/-- What is in a flush was accepted. -/
theorem Live.flushed {w : World} (hl : Live k w) :
    ∀ x ∈ w.router.phase.events, x.seq ≤ w.router.highest := by
  intro x hx
  cases hp : w.router.phase with
  | idle => rw [hp] at hx; cases hx
  | routing pending routed groups =>
      rw [hp] at hx
      exact (hl.routing _ _ _ hp).2 x hx
  | writing routed groups mark =>
      rw [hp] at hx
      exact (hl.writing _ _ _ hp).2 x hx
  | settling seqs => rw [hp] at hx; cases hx

/-- **The process stays above `k`.** -/
theorem live_step (hl : Live k w) (ha : a.inProcess) (hs : step groupsFor w a = some w') :
    Live k w' := by
  have hm := step_moves hs
  have hup := highest_moves hm ha
  refine ⟨Nat.lt_of_lt_of_le hl.next (nextSeq_moves hm), held_live hm hl, ?_, ?_, ?_, ?_⟩
  · intro s hs
    rcases mem_inflight_moves hm s hs with h | ⟨e, he, rfl⟩
    · exact hl.inflight s h
    · exact hl.committed e he
  · intro x hx
    rcases accepted_moves hm x hx with h | h | h
    · exact Nat.le_trans (hl.accepted x h) hup
    · exact Nat.le_trans (hl.flushed x h) hup
    · exact h.2
  · intro pending routed groups hp'
    rcases routing_moves hm hp' with ⟨p, r, g, hp, hsub⟩ | ⟨hne, hsub⟩
    · obtain ⟨hhi, hle⟩ := hl.routing p r g hp
      exact ⟨Nat.lt_of_lt_of_le hhi hup, fun x hx => Nat.le_trans (hle x (hsub x hx)) hup⟩
    · have hbatch : ∀ x ∈ w.router.batch, x.seq ≤ w.router.highest :=
        fun x hx => hl.accepted x (by simp [hx])
      -- the batch is not empty, and what is in it was accepted
      obtain ⟨x, hx⟩ := List.exists_mem_of_ne_nil _ hne
      have hlow := hl.held x (by simp [World.held, hx])
      refine ⟨?_, fun y hy => Nat.le_trans (hbatch y (hsub y hy)) hup⟩
      exact Nat.lt_of_lt_of_le hlow (Nat.le_trans (hbatch x hx) hup)
  · intro routed groups mark hp'
    rcases writing_moves hm hp' with hp | ⟨hp, rfl⟩
    · obtain ⟨hmark, hle⟩ := hl.writing _ _ _ hp
      exact ⟨hmark, fun x hx => Nat.le_trans (hle x hx) hup⟩
    · obtain ⟨hhi, hle⟩ := hl.routing _ _ _ hp
      refine ⟨le_markIfSettled hl.inflight hhi _, fun x hx => Nat.le_trans (hle x ?_) hup⟩
      exact hx

/-! ## The watermark of the running process -/

/-- In the running process a written flush moves the watermark to its mark or leaves it
above, and nothing else moves it. -/
theorem routedThrough_step (ha : a.inProcess) (hs : step groupsFor w a = some w') :
    (a ≠ .writeOk ∧ w'.db.routedThrough = w.db.routedThrough) ∨
      (a = .writeOk ∧ ∃ routed groups mark, w.router.phase = .writing routed groups mark ∧
        w'.db.routedThrough = max w.db.routedThrough mark) := by
  cases step_moves hs with
  | @writeOk routed groups mark hp =>
      exact .inr ⟨rfl, routed, groups, mark, hp, routedThrough_enqueueRouted _ _ _⟩
  | restart => exact ha.elim
  | _ => exact .inl ⟨by simp, rfl⟩

/-- Once a live process has written a flush, its watermark is not below `k`; until then it
is where it was. -/
theorem routedThrough_run {acts : List Act} (hl : Live k w)
    (h : Run (step groupsFor) (fun _ a => a.inProcess) w acts w') :
    w.db.routedThrough ≤ w'.db.routedThrough ∧
      (.writeOk ∈ acts → k ≤ w'.db.routedThrough) ∧
      (.writeOk ∉ acts → w'.db.routedThrough = w.db.routedThrough) := by
  induction h with
  | refl => exact ⟨Nat.le_refl _, by simp, fun _ => rfl⟩
  | @head s t u a as hok hs hrun ih =>
      obtain ⟨hmono, hmem, hnot⟩ := ih (live_step hl hok hs)
      rcases routedThrough_step hok hs with ⟨hne, hsame⟩ | ⟨rfl, routed, groups, mark, hp, hmax⟩
      · rw [hsame] at hmono hnot
        refine ⟨hmono, ?_, ?_⟩
        · intro hin
          exact hmem ((List.mem_cons.mp hin).resolve_left (Ne.symm hne))
        · intro hnin
          exact hnot (mt (List.mem_cons_of_mem _) hnin)
      · have hk : k ≤ mark := (hl.writing routed groups mark hp).1
        rw [hmax] at hmono
        refine ⟨by omega, fun _ => by omega, ?_⟩
        intro hnin
        exact absurd List.mem_cons_self hnin

/-! ## The law -/

/-- What a replay that stopped at `k` promises of the rest of its process: the watermark
stays below `k`, and the next start routes `k` and everything after it. -/
def NotOvertaken (groupsFor : Event → List RoutedGroup) (k : Nat) (db : DB) : Prop :=
  db.routedThrough < k ∧
    ∀ e, k ≤ e.seq → ¬ Owed groupsFor (replayUnrouted groupsFor .all db).1 e

/--
**A replay that stopped is not overtaken exactly as long as no flush is written.**

For every journal and watermark, every failure that stops the replay at `k`, and
every run of the process after it.
-/
theorem notOvertaken_iff {db : DB} {ans : Answers} {k : Nat}
    (hstop : (replayUnrouted groupsFor ans db).2 = .stoppedAt k) {acts : List Act} {w : World}
    (h : Run (step groupsFor) (fun _ a => a.inProcess)
      (World.start (replayUnrouted groupsFor ans db).1) acts w) :
    NotOvertaken groupsFor k w.db ↔ .writeOk ∉ acts := by
  obtain ⟨hlt, e, he, hseq⟩ := replayUnrouted_stoppedAt hstop
  have hk : k < (replayUnrouted groupsFor ans db).1.nextSeq := by
    rw [nextSeq_replayUnrouted, ← hseq]
    exact db.below e he
  obtain ⟨_, hwritten, hsame⟩ := routedThrough_run (live_start hk) h
  constructor
  · intro hno hin
    exact Nat.not_lt.mpr (hwritten hin) hno.1
  · intro hnin
    have hbelow : w.db.routedThrough < k := by
      rw [hsame hnin]
      exact hlt
    refine ⟨hbelow, ?_⟩
    intro x hx
    exact replayUnrouted_all fun _ => Nat.lt_of_lt_of_le hbelow hx

/-! ### A live event overtakes it -/

/-- The rules cannot be read while the replay runs. -/
def rulesUnread : Answers := { Answers.all with rules := fun _ => false }

/-- One event journalled, not routed. -/
def oneJournalled : DB := DB.empty.append (withDefaults "a" "" 0 trap)

/-- A live event is accepted, routed and written. -/
def liveFlush : List Act :=
  [.insert "b" "" 0 trap, .register 2, .send 2, .take, .flush, .routeOk, .markIfSettled, .writeOk]

/-- The database the stopped replay leaves. -/
def stoppedAtOne : DB := (replayUnrouted catchAll rulesUnread oneJournalled).1

/-- A live event is accepted, and the process ends before its flush is written. -/
theorem notOvertaken_iff_unwritten :
    ∃ (acts : List Act) (w : World),
      Run (step catchAll) (fun _ a => a.inProcess) (World.start stoppedAtOne) acts w ∧
      acts.length = 7 ∧ NotOvertaken catchAll 1 w.db := by
  have hstop : (replayUnrouted catchAll rulesUnread oneJournalled).2 = .stoppedAt 1 := by decide
  have hend : (exec (step catchAll) (World.start stoppedAtOne) liveFlush.dropLast).isSome := by
    decide
  obtain ⟨w, hw⟩ := Option.isSome_iff_exists.mp hend
  have hrun : Run (step catchAll) (fun _ a => a.inProcess) (World.start stoppedAtOne)
      liveFlush.dropLast w :=
    (run_of_exec hw).of_labels (by simp [liveFlush, Act.inProcess])
  exact ⟨_, w, hrun, rfl, (notOvertaken_iff hstop hrun).mpr (by simp [liveFlush])⟩

/-- **The claim fails as soon as a flush is written.** The replay stops at seq 1, and
the first live flush moves the watermark to 2. -/
theorem replay_overtaken :
    ¬ ∀ (db : DB) (ans : Answers) (k : Nat),
        (replayUnrouted catchAll ans db).2 = .stoppedAt k →
        ∀ (acts : List Act) (w : World),
          Run (step catchAll) (fun _ a => a.inProcess)
            (World.start (replayUnrouted catchAll ans db).1) acts w →
          NotOvertaken catchAll k w.db := by
  intro hall
  have hstop : (replayUnrouted catchAll rulesUnread oneJournalled).2 = .stoppedAt 1 := by decide
  have hend : (exec (step catchAll) (World.start stoppedAtOne) liveFlush).map
      (fun w => w.db.routedThrough) = some 2 := by decide
  obtain ⟨w, hw, hmark⟩ := Option.map_eq_some_iff.mp hend
  have hrun : Run (step catchAll) (fun _ a => a.inProcess) (World.start stoppedAtOne)
      liveFlush w :=
    (run_of_exec hw).of_labels (by simp [liveFlush, Act.inProcess])
  have hlt := (hall oneJournalled rulesUnread 1 hstop liveFlush w hrun).1
  rw [hmark] at hlt
  exact absurd hlt (by decide)

end SnmpLens.Router
