import Mathlib.Data.List.Induction
import SnmpLens.Monitor.Incident

/-!
# A restart between two rounds

A restart builds a new evaluator and restores the episodes from their table.
Every field of an episode makes the round trip, so the thresholds go on as if
nothing had happened. The set of targets that are down is in no table: a target
that was down when the process ended is announced again if it still is, and its
recovery is never announced if it is not.

`restart_equivalence` is the exact law. Where it holds the two runs go in step
(`Alike`); where it fails, the openings and recoveries of one target no longer
balance (`Swing`), and no later restart can make up for that.
-/

namespace SnmpLens.Monitor

open Events

/-! ## The two runs -/

/-- A poll, or a restart between polls. -/
inductive Act where
  | round (r : Round)
  | restart

/-- A new evaluator, and `Restore` on what the table holds. -/
def World.reload (w : World) : World :=
  { w with episodes := restore w.table, downStates := fun _ => false }

section

variable (f : Formats) (draw : Nat → String)

/-- The evaluator that is restarted where the list says so. -/
def interrupted (w : World) (acts : List Act) : World :=
  acts.foldl (fun w a =>
    match a with
    | .round r => ingest f r draw w
    | .restart => w.reload) w

/-- The evaluator that is never restarted. -/
def uninterrupted (w : World) (acts : List Act) : World :=
  acts.foldl (fun w a =>
    match a with
    | .round r => ingest f r draw w
    | .restart => w) w

end

/-- What an event is compared by: kind, dedup key, opened or resolved, correlation id. -/
def headline : Entry → Option (String × String × String × String)
  | .recorded e => some (e.kind, e.dedupKey, e.state, e.corrID)
  | .flipped _ _ => none

/-- The events recorded, in order. -/
def World.headlines (w : World) : List (String × String × String × String) :=
  w.log.filterMap headline

/-! ## What a round says about a target -/

/-- Whether the round polls the target of a key, and whether every reading of it failed. -/
def Round.verdict (r : Round) (key : String) : Option Bool :=
  (r.visit.find? fun target => reachKey r.sessionID target == key).map r.down

/-- The target of a key is polled in one of the rounds. -/
def Polled (key : String) (acts : List Act) : Prop := ∃ r, Act.round r ∈ acts ∧ r.verdict key ≠ none

/-- What the latest poll said, `down` if there was none. -/
def downAfter (key : String) (down : Bool) (acts : List Act) : Bool :=
  acts.foldl (fun down a =>
    match a with
    | .round r => (r.verdict key).getD down
    | .restart => down) down

/-- At some restart there is a target whose latest poll failed altogether and that is polled
again later. -/
def ForgetsDown (acts : List Act) : Prop :=
  ∃ before after key, acts = before ++ .restart :: after ∧ downAfter key false before = true ∧
    Polled key after

/-! ## The table is the map -/

theorem restore_eq (records : List EpisodeRecord) (key : String) :
    restore records key = records.reverse.find? fun row => row.dedupKey == key := by
  unfold restore
  induction records using List.reverseRecOn with
  | nil => rfl
  | append_singleton records last ih =>
      rw [List.foldl_append, List.reverse_append]
      by_cases hk : key = last.dedupKey
      · simp [put, hk]
      · have hne : (last.dedupKey == key) = false := beq_false_of_ne (Ne.symm hk)
        simp only [List.foldl_cons, List.foldl_nil, put, if_neg hk, ih, List.reverse_cons,
          List.reverse_nil, List.nil_append, List.singleton_append, List.find?_cons, hne]

theorem restore_deleteEpisode (table : List EpisodeRecord) (key : String) :
    restore (deleteEpisode table key) = put (restore table) key none := by
  funext k
  rw [restore_eq, deleteEpisode, ← List.filter_reverse, List.find?_filter]
  by_cases hk : k = key
  · rw [hk, put_self]
    refine List.find?_eq_none.mpr ?_
    intro row _
    simp
  · rw [put_of_ne _ _ hk, restore_eq]
    congr 1
    funext row
    by_cases hrow : row.dedupKey = k
    · simp [hrow, hk]
    · simp [hrow]

theorem restore_saveEpisode (table : List EpisodeRecord) (epi : EpisodeRecord) :
    restore (saveEpisode table epi) = put (restore table) epi.dedupKey (some epi) := by
  have hsave : saveEpisode table epi = deleteEpisode table epi.dedupKey ++ [epi] := rfl
  have happend : restore (deleteEpisode table epi.dedupKey ++ [epi])
      = put (restore (deleteEpisode table epi.dedupKey)) epi.dedupKey (some epi) := by
    unfold restore
    rw [List.foldl_append]
    rfl
  rw [hsave, happend, restore_deleteEpisode]
  funext k
  unfold put
  split <;> rfl

/-- What a restart would restore is what the evaluator holds. -/
def Saved (w : World) : Prop := restore w.table = w.episodes

theorem Saved.dedupKey {w : World} (h : Saved w) {key : String} {epi : EpisodeRecord}
    (hepi : w.episodes key = some epi) : epi.dedupKey = key := by
  rw [← h, restore_eq] at hepi
  have hfound := List.find?_some hepi
  simpa using hfound

theorem saved_save {w : World} (h : Saved w) {key : String} {epi : EpisodeRecord}
    (hkey : epi.dedupKey = key) : Saved (w.save key epi) := by
  have hload : restore (saveEpisode w.table epi) = put w.episodes key (some epi) := by
    rw [restore_saveEpisode, h, hkey]
  exact hload

section

variable {f : Formats} {draw : Nat → String} {r : Round}

theorem saved_reach {w : World} (h : Saved w) (target : String) : Saved (reach f r w target) := by
  unfold reach
  dsimp only
  split
  · exact h
  · split
    · exact h
    · exact h

theorem saved_evaluate {w : World} (h : Saved w) (s : Sample) : Saved (evaluate f r draw w s) := by
  unfold evaluate
  dsimp only
  split
  · split
    · rename_i epi _
      have hload : restore (deleteEpisode w.table (thresholdKey r.sessionID s.target s.oid))
          = put w.episodes (thresholdKey r.sessionID s.target s.oid) none := by
        rw [restore_deleteEpisode, h]
      unfold close Saved
      cases s.value with
      | none => exact hload
      | some value => cases epi.fired <;> exact hload
    · exact h
  · rename_i kind bound _
    have hcurrent : Saved (currentEpisode f r draw w s kind
        (thresholdKey r.sessionID s.target s.oid) ((f.parse s.timestamp).getD s.now)) := by
      unfold currentEpisode
      split
      · exact h
      · have hload := @saved_save _ h (thresholdKey r.sessionID s.target s.oid)
          (freshEpisode f r draw w s kind (thresholdKey r.sessionID s.target s.oid)
            ((f.parse s.timestamp).getD s.now)) rfl
        exact hload
    split
    · rename_i epi hepi
      have hkey := hcurrent.dedupKey hepi
      unfold raise
      dsimp only
      split
      · exact hcurrent
      · split
        · exact hcurrent
        · have hload := @saved_save _ hcurrent _
            { epi with firedAt := f.format ((f.parse s.timestamp).getD s.now) } hkey
          exact hload
    · exact hcurrent

theorem saved_ingest {w : World} (h : Saved w) : Saved (ingest f r draw w) := by
  have hreach : Saved (r.visit.foldl (reach f r) w) := by
    generalize r.visit = targets
    induction targets generalizing w with
    | nil => exact h
    | cons target rest ih => exact ih (saved_reach h target)
  unfold ingest
  generalize r.samples = samples
  generalize r.visit.foldl (reach f r) w = v at hreach
  induction samples generalizing v with
  | nil => exact hreach
  | cons s rest ih => exact ih _ (saved_evaluate hreach s)

/-! ## What a round does to reachability -/

theorem reach_downStates (w : World) (target : String) :
    (reach f r w target).downStates
      = put w.downStates (reachKey r.sessionID target) (r.down target) := by
  unfold reach
  dsimp only
  split
  · rename_i h
    simp only [Bool.and_eq_true, Bool.not_eq_true'] at h
    rw [h.1]
    rfl
  · split
    · rename_i h
      simp only [Bool.and_eq_true, Bool.not_eq_true'] at h
      rw [h.1]
      rfl
    · -- the state is what the poll says already
      rename_i hd hu
      have hsame : w.downStates (reachKey r.sessionID target) = r.down target := by
        cases hdown : r.down target <;> cases hwas : w.downStates (reachKey r.sessionID target)
        · rfl
        · exact absurd (by simp [hdown, hwas]) hu
        · exact absurd (by simp [hdown, hwas]) hd
        · rfl
      funext k
      unfold put
      split
      · rename_i hk
        rw [hk, hsame]
      · rfl

/-- The headline of a reachability event. -/
def reachHeadline (key : String) (up : Bool) : String × String × String × String :=
  (if up then kindReachabilityUp else kindReachabilityDown, key,
    if up then stateResolved else stateOpen, "")

/-- What is said about a target that was up or down and is polled. -/
def said (key : String) (was now : Bool) : List (String × String × String × String) :=
  if now && !was then [reachHeadline key false] else if !now && was then [reachHeadline key true]
  else []

theorem reach_headlines (w : World) (target : String) :
    (reach f r w target).headlines = w.headlines ++ said (reachKey r.sessionID target)
      (w.downStates (reachKey r.sessionID target)) (r.down target) := by
  unfold reach said
  dsimp only
  split
  · simp [World.headlines, World.record, headline, reachabilityEvent, reachHeadline]
  · split
    · simp [World.headlines, World.record, headline, reachabilityEvent, reachHeadline]
    · simp

theorem reachKey_inj {s t t' : String} (h : reachKey s t = reachKey s t') : t = t' := by
  have hlist := congrArg String.toList h
  simp only [reachKey, String.toList_append, List.append_cancel_left_eq] at hlist
  exact String.toList_inj.mp hlist

theorem Round.visit_nodup (r : Round) : r.visit.Nodup :=
  r.visit_perm.nodup_iff.mpr (List.nodup_dedup _)

theorem reaches_downStates (targets : List String) (hnd : targets.Nodup) (w : World) (key : String) :
    (targets.foldl (reach f r) w).downStates key
      = ((targets.find? fun target => reachKey r.sessionID target == key).map r.down).getD
          (w.downStates key) := by
  induction targets generalizing w with
  | nil => rfl
  | cons target rest ih =>
      obtain ⟨hnot, hnd⟩ := List.nodup_cons.mp hnd
      rw [List.foldl_cons, ih hnd, reach_downStates, List.find?_cons]
      by_cases hk : reachKey r.sessionID target = key
      · have hnone : rest.find? (fun target => reachKey r.sessionID target == key) = none := by
          refine List.find?_eq_none.mpr ?_
          intro x hx hxk
          exact hnot (reachKey_inj ((beq_iff_eq.mp hxk).trans hk.symm) ▸ hx)
        rw [hnone, beq_iff_eq.mpr hk, ← hk, put_self]
        rfl
      · rw [beq_false_of_ne hk, put_of_ne _ _ (Ne.symm hk)]

/-! ## What a sample does -/

theorem evaluate_downStates (w : World) (s : Sample) :
    (evaluate f r draw w s).downStates = w.downStates := by
  have hcurrent : ∀ kind key now,
      (currentEpisode f r draw w s kind key now).downStates = w.downStates := by
    intro kind key now
    unfold currentEpisode
    split <;> rfl
  unfold evaluate
  dsimp only
  split
  · split
    · rename_i epi _
      unfold close
      cases s.value with
      | none => rfl
      | some value => cases epi.fired <;> rfl
    · rfl
  · split
    · unfold raise
      dsimp only
      split
      · exact hcurrent _ _ _
      · split
        · exact hcurrent _ _ _
        · exact hcurrent _ _ _
    · exact hcurrent _ _ _

theorem evaluates_downStates (samples : List Sample) (w : World) :
    (samples.foldl (evaluate f r draw) w).downStates = w.downStates := by
  induction samples generalizing w with
  | nil => rfl
  | cons s rest ih => rw [List.foldl_cons, ih, evaluate_downStates]

theorem ingest_downStates (w : World) (key : String) :
    (ingest f r draw w).downStates key = (r.verdict key).getD (w.downStates key) := by
  unfold ingest
  rw [evaluates_downStates]
  exact reaches_downStates r.visit r.visit_nodup w key

/-- No headline of a threshold event is one of reachability. -/
def NoReach (hs : List (String × String × String × String)) : Prop :=
  ∀ key up, reachHeadline key up ∉ hs

/-- What is added to the headlines is about thresholds. -/
def Adds (w w' : World) : Prop := ∃ new, NoReach new ∧ w'.headlines = w.headlines ++ new

theorem Adds.refl {w w' : World} (h : w'.headlines = w.headlines) : Adds w w' :=
  ⟨[], by simp [NoReach], by rw [h, List.append_nil]⟩

theorem Adds.trans {u v w : World} (h : Adds u v) (h' : Adds v w) : Adds u w := by
  obtain ⟨a, ha, hu⟩ := h
  obtain ⟨b, hb, hv⟩ := h'
  refine ⟨a ++ b, ?_, by rw [hv, hu, List.append_assoc]⟩
  intro key up hmem
  rcases List.mem_append.mp hmem with hmem | hmem
  · exact ha key up hmem
  · exact hb key up hmem

theorem headlines_record (w : World) (e : Event) :
    (w.record e).headlines = w.headlines ++ [(e.kind, e.dedupKey, e.state, e.corrID)] := by
  simp [World.headlines, World.record, headline]

theorem adds_record (w : World) {e : Event}
    (hkind : e.kind = kindThresholdOpened ∨ e.kind = kindThresholdResolved) :
    Adds w (w.record e) := by
  refine ⟨_, ?_, headlines_record w e⟩
  intro key up hmem
  have hreach : (reachHeadline key up).1 = e.kind := by rw [List.mem_singleton.mp hmem]
  rcases hkind with hk | hk
  · rw [hk] at hreach
    cases up <;> exact absurd hreach (by simp [reachHeadline, kindReachabilityUp,
      kindReachabilityDown, kindThresholdOpened])
  · rw [hk] at hreach
    cases up <;> exact absurd hreach (by simp [reachHeadline, kindReachabilityUp,
      kindReachabilityDown, kindThresholdResolved])

theorem startEpisode_headlines (w : World) (s : Sample) (kind : Bound) (key : String) (now : Int) :
    (startEpisode f r draw w s kind key now).headlines = w.headlines := by
  unfold startEpisode World.headlines
  dsimp only
  rw [List.filterMap_append, List.append_right_eq_self]
  refine List.filterMap_eq_nil_iff.mpr ?_
  intro x hx
  obtain ⟨old, _, rfl⟩ := List.mem_map.mp hx
  rfl

theorem currentEpisode_headlines (w : World) (s : Sample) (kind : Bound) (key : String)
    (now : Int) : (currentEpisode f r draw w s kind key now).headlines = w.headlines := by
  unfold currentEpisode
  split
  · rfl
  · exact startEpisode_headlines w s kind key now

theorem raise_adds (w : World) (s : Sample) (epi : EpisodeRecord) (key : String) (bound : Float64)
    (now : Int) : Adds w (raise f r w s epi key bound now) := by
  unfold raise
  dsimp only
  split
  · exact .refl rfl
  · split
    · exact .refl rfl
    · exact adds_record _ (.inl rfl)

theorem evaluate_adds (w : World) (s : Sample) : Adds w (evaluate f r draw w s) := by
  unfold evaluate
  dsimp only
  split
  · split
    · rename_i epi _
      unfold close
      cases s.value with
      | none => exact .refl rfl
      | some value =>
          cases epi.fired with
          | false => exact .refl rfl
          | true => exact adds_record w (.inr rfl)
    · exact .refl rfl
  · have hcurrent : ∀ kind key now, Adds w (currentEpisode f r draw w s kind key now) :=
      fun kind key now => .refl (currentEpisode_headlines w s kind key now)
    split
    · exact (hcurrent _ _ _).trans (raise_adds _ s _ _ _ _)
    · exact hcurrent _ _ _

/-! ## Going in step -/

/-- Two evaluators that say the same from here on, as far as the live targets go. -/
structure Alike (live : String → Prop) (u w : World) : Prop where
  episodes : w.episodes = u.episodes
  drawn : w.drawn = u.drawn
  headlines : w.headlines = u.headlines
  down : ∀ key, live key → w.downStates key = u.downStates key

section

variable {live : String → Prop} {u w : World}

theorem alike_record (h : Alike live u w) (e : Event) : Alike live (u.record e) (w.record e) :=
  ⟨h.episodes, h.drawn, by rw [headlines_record, headlines_record, h.headlines], h.down⟩

theorem alike_save (h : Alike live u w) (key : String) (epi : EpisodeRecord) :
    Alike live (u.save key epi) (w.save key epi) := by
  refine ⟨?_, h.drawn, h.headlines, h.down⟩
  have hput : put w.episodes key (some epi) = put u.episodes key (some epi) := by rw [h.episodes]
  exact hput

theorem alike_reach (h : Alike live u w) {target : String}
    (hlive : live (reachKey r.sessionID target)) :
    Alike live (reach f r u target) (reach f r w target) := by
  have hrest : ∀ v : World, (reach f r v target).episodes = v.episodes ∧
      (reach f r v target).drawn = v.drawn := by
    intro v
    unfold reach
    dsimp only
    split
    · exact ⟨rfl, rfl⟩
    · split <;> exact ⟨rfl, rfl⟩
  refine ⟨?_, ?_, ?_, ?_⟩
  · rw [(hrest w).1, (hrest u).1, h.episodes]
  · rw [(hrest w).2, (hrest u).2, h.drawn]
  · rw [reach_headlines, reach_headlines, h.headlines, h.down _ hlive]
  · intro key hkey
    rw [reach_downStates, reach_downStates]
    unfold put
    split
    · rfl
    · exact h.down key hkey

theorem alike_current (h : Alike live u w) (s : Sample) (kind : Bound) (key : String) (now : Int) :
    Alike live (currentEpisode f r draw u s kind key now)
      (currentEpisode f r draw w s kind key now) := by
  unfold currentEpisode
  rw [h.episodes]
  split
  · exact h
  · have hfresh : freshEpisode f r draw w s kind key now = freshEpisode f r draw u s kind key now := by
      unfold freshEpisode
      rw [h.drawn]
    refine ⟨?_, ?_, ?_, h.down⟩
    · have hput : put w.episodes key (some (freshEpisode f r draw w s kind key now))
          = put u.episodes key (some (freshEpisode f r draw u s kind key now)) := by
        rw [h.episodes, hfresh]
      exact hput
    · exact congrArg (· + 1) h.drawn
    · rw [startEpisode_headlines, startEpisode_headlines, h.headlines]

theorem alike_evaluate (h : Alike live u w) (s : Sample) :
    Alike live (evaluate f r draw u s) (evaluate f r draw w s) := by
  unfold evaluate
  dsimp only
  split
  · rw [h.episodes]
    split
    · rename_i epi _
      -- both close the same episode
      have hclose : ∀ {u w : World}, Alike live u w → ∀ key, Alike live
          { u with episodes := put u.episodes key none, table := deleteEpisode u.table key }
          { w with episodes := put w.episodes key none, table := deleteEpisode w.table key } := by
        intro u w h key
        refine ⟨?_, h.drawn, h.headlines, h.down⟩
        dsimp only
        rw [h.episodes]
      unfold close
      cases s.value with
      | none => exact hclose h _
      | some value =>
          cases epi.fired with
          | false => exact hclose h _
          | true => exact hclose (alike_record h _) _
    · exact h
  · rename_i kind bound _
    have hcurrent := @alike_current f draw r _ _ _ h s kind
      (thresholdKey r.sessionID s.target s.oid) ((f.parse s.timestamp).getD s.now)
    rw [hcurrent.episodes]
    split
    · unfold raise
      dsimp only
      split
      · exact hcurrent
      · split
        · exact hcurrent
        · exact alike_record (alike_save hcurrent _ _) _
    · exact hcurrent

theorem alike_ingest (h : Alike live u w) (hlive : ∀ key, r.verdict key ≠ none → live key) :
    Alike live (ingest f r draw u) (ingest f r draw w) := by
  have hvisit : ∀ target ∈ r.visit, live (reachKey r.sessionID target) := by
    intro target ht
    refine hlive _ ?_
    unfold Round.verdict
    rw [ne_eq, Option.map_eq_none_iff, List.find?_eq_none]
    intro hnone
    exact hnone target ht (beq_self_eq_true _)
  have hreach : Alike live (r.visit.foldl (reach f r) u) (r.visit.foldl (reach f r) w) := by
    generalize r.visit = targets at hvisit
    induction targets generalizing u w with
    | nil => exact h
    | cons target rest ih =>
        exact ih (alike_reach h (hvisit target List.mem_cons_self))
          fun t ht => hvisit t (List.mem_cons_of_mem _ ht)
  unfold ingest
  generalize r.samples = samples
  generalize r.visit.foldl (reach f r) u = u' at hreach
  generalize r.visit.foldl (reach f r) w = w' at hreach
  induction samples generalizing u' w' with
  | nil => exact hreach
  | cons s rest ih => exact ih _ _ (alike_evaluate hreach s)

theorem Alike.mono {live' : String → Prop} (h : Alike live u w) (hsub : ∀ key, live' key → live key) :
    Alike live' u w :=
  ⟨h.episodes, h.drawn, h.headlines, fun key hkey => h.down key (hsub key hkey)⟩

end

end

/-- A target polled in the rest of a list is polled in the list. -/
theorem Polled.cons {key : String} {acts : List Act} (h : Polled key acts) (a : Act) :
    Polled key (a :: acts) := by
  obtain ⟨r, hr, hv⟩ := h
  exact ⟨r, List.mem_cons_of_mem _ hr, hv⟩

/-- No restart forgets a target that is polled later, the targets down at first being known. -/
def Keeps (down : String → Bool) (acts : List Act) : Prop :=
  ∀ before after key, acts = before ++ .restart :: after →
    downAfter key (down key) before = true → ¬ Polled key after

theorem Keeps.tail {down : String → Bool} {a : Act} {acts : List Act} (h : Keeps down (a :: acts)) :
    Keeps (fun key => downAfter key (down key) [a]) acts := by
  intro before after key hsplit hdown
  exact h (a :: before) after key (by rw [hsplit]; rfl) hdown

variable {f : Formats} {draw : Nat → String}

/-- **The two runs go in step when no restart forgets a target that is polled later.** -/
theorem alike_runs (acts : List Act) {u w : World} (h : Alike (fun key => Polled key acts) u w)
    (hsaved : Saved w) (hkeeps : Keeps u.downStates acts) :
    (interrupted f draw w acts).headlines = (uninterrupted f draw u acts).headlines := by
  induction acts generalizing u w with
  | nil => exact h.headlines
  | cons a rest ih =>
      have hlater : ∀ key, Polled key rest → Polled key (a :: rest) := fun key hp => hp.cons a
      cases a with
      | round r =>
          have halike := @alike_ingest f draw r _ _ _ h fun key hv =>
            ⟨r, List.mem_cons_self, hv⟩
          refine ih (halike.mono hlater) (saved_ingest hsaved) ?_
          have hdown : (ingest f r draw u).downStates
              = fun key => downAfter key (u.downStates key) [.round r] :=
            funext fun key => ingest_downStates u key
          rw [hdown]
          exact hkeeps.tail
      | restart =>
          refine ih ?_ rfl hkeeps.tail
          refine ⟨hsaved.trans h.episodes, h.drawn, h.headlines, ?_⟩
          intro key hp
          have hup : ¬ u.downStates key = true :=
            fun hdown => hkeeps [] rest key rfl hdown hp
          exact (Bool.eq_false_iff.mpr hup).symm

/-! ## Falling out of step -/

/-- The announcements of a target less its recoveries. -/
def balance (key : String) (hs : List (String × String × String × String)) : Int :=
  (hs.count (reachHeadline key false) : Int) - hs.count (reachHeadline key true)

theorem balance_append (key : String) (a b : List (String × String × String × String)) :
    balance key (a ++ b) = balance key a + balance key b := by
  unfold balance
  rw [List.count_append, List.count_append]
  omega

theorem balance_noReach {hs : List (String × String × String × String)} (h : NoReach hs)
    (key : String) : balance key hs = 0 := by
  unfold balance
  rw [List.count_eq_zero_of_not_mem (h key false), List.count_eq_zero_of_not_mem (h key true)]
  rfl

/-- What a poll adds to the balance of a target. -/
def swing (verdict : Option Bool) (was : Bool) : Int :=
  match verdict, was with
  | some true, false => 1
  | some false, true => -1
  | _, _ => 0

theorem balance_said (key : String) (was now : Bool) :
    balance key (said key was now) = swing (some now) was := by
  unfold balance said swing reachHeadline
  cases was <;> cases now <;> simp [kindReachabilityUp, kindReachabilityDown]

theorem balance_said_of_ne {key key' : String} (h : key' ≠ key) (was now : Bool) :
    balance key (said key' was now) = 0 := by
  unfold balance said reachHeadline
  cases was <;> cases now <;> simp [h]

theorem reaches_balance {r : Round} (targets : List String) (hnd : targets.Nodup) (w : World)
    (key : String) :
    balance key (targets.foldl (reach f r) w).headlines = balance key w.headlines
      + swing ((targets.find? fun target => reachKey r.sessionID target == key).map r.down)
          (w.downStates key) := by
  induction targets generalizing w with
  | nil => simp [swing]
  | cons target rest ih =>
      obtain ⟨hnot, hnd⟩ := List.nodup_cons.mp hnd
      rw [List.foldl_cons, ih hnd, reach_headlines, balance_append, reach_downStates,
        List.find?_cons]
      by_cases hk : reachKey r.sessionID target = key
      · have hnone : rest.find? (fun target => reachKey r.sessionID target == key) = none := by
          refine List.find?_eq_none.mpr ?_
          intro x hx hxk
          exact hnot (reachKey_inj ((beq_iff_eq.mp hxk).trans hk.symm) ▸ hx)
        rw [hnone, beq_iff_eq.mpr hk, hk, balance_said]
        simp [swing]
      · rw [beq_false_of_ne hk, put_of_ne _ _ (Ne.symm hk), balance_said_of_ne hk]
        dsimp only
        omega

theorem ingest_balance {r : Round} (w : World) (key : String) :
    balance key (ingest f r draw w).headlines
      = balance key w.headlines + swing (r.verdict key) (w.downStates key) := by
  have hadds : ∀ (samples : List Sample) (v : World),
      balance key (samples.foldl (evaluate f r draw) v).headlines = balance key v.headlines := by
    intro samples
    induction samples with
    | nil => exact fun _ => rfl
    | cons s rest ih =>
        intro v
        obtain ⟨new, hnew, hlog⟩ := @evaluate_adds f draw r v s
        rw [List.foldl_cons, ih, hlog, balance_append, balance_noReach hnew]
        omega
  unfold ingest
  rw [hadds]
  exact reaches_balance r.visit r.visit_nodup w key

theorem uninterrupted_downStates (acts : List Act) (u : World) (key : String) :
    (uninterrupted f draw u acts).downStates key = downAfter key (u.downStates key) acts := by
  induction acts generalizing u with
  | nil => rfl
  | cons a rest ih =>
      cases a with
      | round r =>
          have hnext := ih (ingest f r draw u)
          rw [ingest_downStates] at hnext
          exact hnext
      | restart => exact ih u

/-- A target held to be up is announced at least as often as one held to be down. -/
theorem swing_le {was was' : Bool} (h : was' = true → was = true) (verdict : Option Bool) :
    swing verdict was ≤ swing verdict was' := by
  cases verdict with
  | none => exact Int.le_refl _
  | some now =>
      cases now <;> cases was <;> cases was' <;> simp [swing] at h ⊢

/-- At a poll of a target one run holds to be down and the other forgot, the two part. -/
theorem swing_forgotten (now : Bool) : swing (some now) true + 1 = swing (some now) false := by
  cases now <;> rfl

/-- How much more often the second run has announced a target, recoveries taken off. -/
def surplus (key : String) (u w : World) : Int :=
  balance key w.headlines - balance key u.headlines

/--
What a target forgotten has to do with the surplus: it never gets smaller, and it
grows when a target that one run holds to be down and the other does not is polled.
-/
theorem surplus_runs (acts : List Act) {u w : World} (key : String)
    (hle : w.downStates key = true → u.downStates key = true) :
    surplus key u w ≤ surplus key (uninterrupted f draw u acts) (interrupted f draw w acts) ∧
      (w.downStates key = false → u.downStates key = true → Polled key acts →
        surplus key u w
          < surplus key (uninterrupted f draw u acts) (interrupted f draw w acts)) := by
  induction acts generalizing u w with
  | nil => exact ⟨Int.le_refl _, fun _ _ ⟨_, hr, _⟩ => absurd hr (by simp)⟩
  | cons a rest ih =>
      cases a with
      | restart =>
          have hreload : w.reload.downStates key = false := rfl
          obtain ⟨h1, h2⟩ := ih (u := u) (w := w.reload) fun h => absurd h (by simp [hreload])
          refine ⟨h1, ?_⟩
          intro _ hdown hp
          refine h2 hreload hdown ?_
          obtain ⟨r, hr, hv⟩ := hp
          rcases List.mem_cons.mp hr with hr | hr
          · cases hr
          · exact ⟨r, hr, hv⟩
      | round r =>
          have hu := @ingest_balance f draw r u key
          have hw := @ingest_balance f draw r w key
          have hud := @ingest_downStates f draw r u key
          have hwd := @ingest_downStates f draw r w key
          have hle' : (ingest f r draw w).downStates key = true →
              (ingest f r draw u).downStates key = true := by
            rw [hud, hwd]
            cases r.verdict key with
            | none => exact hle
            | some now => exact id
          obtain ⟨h1, h2⟩ := ih hle'
          have hswing := swing_le hle (r.verdict key)
          have hstep : surplus key u w ≤ surplus key (ingest f r draw u) (ingest f r draw w) := by
            unfold surplus
            omega
          refine ⟨Int.le_trans hstep h1, ?_⟩
          intro hup hdown hp
          cases hv : r.verdict key with
          | none =>
              have hrest : Polled key rest := by
                obtain ⟨x, hx, hxv⟩ := hp
                rcases List.mem_cons.mp hx with hx | hx
                · rw [Act.round.inj hx] at hxv
                  exact absurd hv hxv
                · exact ⟨x, hx, hxv⟩
              rw [hv] at hud hwd
              exact Int.lt_of_le_of_lt hstep (h2 (hwd.trans hup) (hud.trans hdown) hrest)
          | some now =>
              have hpart := swing_forgotten now
              rw [hv, hdown] at hu
              rw [hv, hup] at hw
              refine Int.lt_of_lt_of_le ?_ h1
              unfold surplus
              omega

/-! ## The law -/

theorem interrupted_append (f : Formats) (draw : Nat → String) (w : World) (a b : List Act) :
    interrupted f draw w (a ++ b) = interrupted f draw (interrupted f draw w a) b :=
  List.foldl_append

theorem uninterrupted_append (f : Formats) (draw : Nat → String) (u : World) (a b : List Act) :
    uninterrupted f draw u (a ++ b) = uninterrupted f draw (uninterrupted f draw u a) b :=
  List.foldl_append

/--
**A run with restarts records what an uninterrupted one does, exactly when no
restart comes between a poll of a target that failed altogether and its next poll.**

For every sequence of rounds and every set of restarts between them.
-/
theorem restart_equivalence (f : Formats) (draw : Nat → String) (acts : List Act) :
    (interrupted f draw .start acts).headlines = (uninterrupted f draw .start acts).headlines ↔
      ¬ ForgetsDown acts := by
  constructor
  · intro heq hforgets
    obtain ⟨before, after, key, rfl, hdown, hpolled⟩ := hforgets
    have hpast := @surplus_runs f draw before .start .start key id
    have hstill := @uninterrupted_downStates f draw before .start key
    rw [show World.start.downStates key = false from rfl, hdown] at hstill
    have hlater := (@surplus_runs f draw after (uninterrupted f draw .start before)
      (interrupted f draw .start before).reload key
      (fun h => absurd h (by simp [World.reload]))).2 rfl hstill hpolled
    have hend : surplus key (uninterrupted f draw .start (before ++ .restart :: after))
        (interrupted f draw .start (before ++ .restart :: after)) = 0 := by
      unfold surplus
      rw [heq]
      omega
    rw [uninterrupted_append, interrupted_append] at hend
    have hzero : surplus key .start .start = 0 := Int.sub_self _
    have hreload : surplus key (uninterrupted f draw .start before)
          (interrupted f draw .start before).reload
        = surplus key (uninterrupted f draw .start before) (interrupted f draw .start before) := rfl
    have hrest : surplus key
          (uninterrupted f draw (uninterrupted f draw .start before) (.restart :: after))
          (interrupted f draw (interrupted f draw .start before) (.restart :: after))
        = surplus key (uninterrupted f draw (uninterrupted f draw .start before) after)
          (interrupted f draw (interrupted f draw .start before).reload after) := rfl
    have hfirst := hpast.1
    omega
  · intro hno
    refine alike_runs acts ⟨rfl, rfl, rfl, fun _ _ => rfl⟩ rfl ?_
    intro before after key hsplit hdown hpolled
    exact hno ⟨before, after, key, hsplit, hdown, hpolled⟩

/-! ### A target that stays down -/

/-- A poll that times out. -/
def timedOut (timestamp : String) : Round :=
  { reading timestamp none with
    samples := [{ target := "10.0.0.1", oid := "oid1", timestamp, value := none
                  error := "timeout", now := 0 }]
    visit_perm := by simp [reading] }

/-- **The claim without the condition fails.** A target that was down before a restart is
announced again. -/
theorem down_forgotten :
    ¬ ∀ (f : Formats) (draw : Nat → String) (acts : List Act),
        (interrupted f draw .start acts).headlines
          = (uninterrupted f draw .start acts).headlines := by
  intro hall
  have heq := hall newYear toString
    [.round (timedOut "2026-01-01T00:00:00Z"), .restart, .round (timedOut "2026-01-01T00:00:05Z")]
  exact absurd (congrArg List.length heq) (by decide)

end SnmpLens.Monitor
