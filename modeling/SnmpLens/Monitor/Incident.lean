import SnmpLens.Lib.Machine
import SnmpLens.Monitor.Breach

/-!
# Opened and resolved come in pairs

What the journal shows of one dedup key is a word over openings and resolutions,
and `track` reads it: nothing but an opening may come while no incident is open,
nothing but its own resolution while one is. A third letter, `flipped`, stands for
what the journal does not show — a reported breach of one bound giving way to a
breach of the other, which is a new incident by design and whose predecessor gets
no resolution.

`incidents_paired` is the law with these letters read along: whatever is polled,
every key's word is one `track` accepts, and the incident it leaves open is the
one the evaluator holds. The one thing excluded is a reading without a value for a
key whose breach has been reported: that closes the episode and says nothing.
-/

namespace SnmpLens.Monitor

open Events Machine

/-! ## Words of incidents -/

/-- One letter of what happens to a key, with its correlation id. -/
inductive Mark where
  | opened (corrID : String)
  | resolved (corrID : String)
  | flipped (corrID : String)
deriving DecidableEq, Repr

/-- What an event says about its incident. -/
def markOf (e : Event) : Option Mark :=
  if e.state == stateOpen then some (.opened e.corrID)
  else if e.state == stateResolved then some (.resolved e.corrID)
  else none

def Entry.key : Entry → String
  | .recorded e => e.dedupKey
  | .flipped epi _ => epi.dedupKey

def Entry.mark : Entry → Option Mark
  | .recorded e => markOf e
  | .flipped epi _ => some (.flipped epi.corrID)

/-- What happened to one key. -/
def marks (key : String) (log : List Entry) : List Mark :=
  (log.filter fun x => x.key == key).filterMap Entry.mark

/-- What the journal shows of one key. -/
def shown (key : String) (log : List Entry) : List Mark :=
  (marks key log).filter fun m => !(m matches .flipped _)

/--
Reads a word, the correlation id of the open incident in hand. `none` where two
openings follow each other, or something ends an incident that is not open.
-/
def track : Option String → List Mark → Option (Option String)
  | incident, [] => some incident
  | none, .opened corrID :: rest => track (some corrID) rest
  | some corrID, .resolved corrID' :: rest => if corrID = corrID' then track none rest else none
  | some corrID, .flipped corrID' :: rest => if corrID = corrID' then track none rest else none
  | _, _ => none

theorem track_append (incident : Option String) (a b : List Mark) :
    track incident (a ++ b) = (track incident a).bind fun incident => track incident b := by
  induction a generalizing incident with
  | nil => cases incident <;> rfl
  | cons m rest ih =>
      cases incident with
      | none => cases m <;> simp [track, ih]
      | some corrID =>
          cases m <;> simp only [track, List.cons_append, Option.bind_none]
          all_goals split <;> simp [ih]

theorem marks_append (key : String) (a b : List Entry) :
    marks key (a ++ b) = marks key a ++ marks key b := by
  simp [marks]

theorem marks_of_other {key : String} {log : List Entry} (h : ∀ x ∈ log, x.key ≠ key) :
    marks key log = [] := by
  unfold marks
  rw [List.filter_eq_nil_iff.mpr]
  · rfl
  · exact fun x hx hk => h x hx (beq_iff_eq.mp hk)

/-! ## Keys -/

theorem reachKey_ne_thresholdKey (s t s' t' o : String) : reachKey s t ≠ thresholdKey s' t' o := by
  intro h
  have hhead := congrArg (fun key => key.toList.head?) h
  simp [reachKey, thresholdKey, String.toList_append] at hhead

/-- Every key is of the map it is in. -/
structure Keyed (w : World) : Prop where
  down : ∀ key, w.downStates key = true → ∃ s t, key = reachKey s t
  episodes : ∀ key epi, w.episodes key = some epi →
    epi.dedupKey = key ∧ ∃ s t o, key = thresholdKey s t o

theorem keyed_start : Keyed World.start := by
  constructor <;> simp [World.start]

/-- The correlation id of the incident the evaluator holds open under a key. -/
def World.incident (w : World) (key : String) : Option String :=
  if w.downStates key then some ""
  else ((w.episodes key).filter EpisodeRecord.fired).map EpisodeRecord.corrID

variable {w : World}

theorem Keyed.incident_threshold (h : Keyed w) (s t o : String) :
    w.incident (thresholdKey s t o) =
      ((w.episodes (thresholdKey s t o)).filter EpisodeRecord.fired).map EpisodeRecord.corrID := by
  have hup : w.downStates (thresholdKey s t o) = false := by
    cases hd : w.downStates (thresholdKey s t o) with
    | false => rfl
    | true =>
        obtain ⟨s', t', hkey⟩ := h.down _ hd
        exact absurd hkey.symm (reachKey_ne_thresholdKey _ _ _ _ _)
  unfold World.incident
  rw [hup]
  rfl

theorem Keyed.incident_reach (h : Keyed w) (s t : String) :
    w.incident (reachKey s t) = if w.downStates (reachKey s t) then some "" else none := by
  have hnone : w.episodes (reachKey s t) = none := by
    cases hepi : w.episodes (reachKey s t) with
    | none => rfl
    | some epi =>
        obtain ⟨_, s', t', o, hkey⟩ := h.episodes _ _ hepi
        exact absurd hkey (reachKey_ne_thresholdKey _ _ _ _ _)
  unfold World.incident
  rw [hnone]
  rfl

/-- An entry that says a reported breach gave way to one of the other bound. -/
def Entry.Genuine : Entry → Prop
  | .recorded _ => True
  | .flipped epi next =>
      epi.fired = true ∧ epi.kind ≠ next ∧ ∃ s t o, epi.dedupKey = thresholdKey s t o

/-- What is added to the log takes every key from the incident open before to the one open
after. -/
def Follows (w w' : World) : Prop :=
  ∃ new, w'.log = w.log ++ new ∧ (∀ x ∈ new, x.Genuine) ∧
    ∀ key, track (w.incident key) (marks key new) = some (w'.incident key)

theorem track_nil (incident : Option String) : track incident [] = some incident := by
  cases incident <;> rfl

theorem Follows.refl (w : World) : Follows w w :=
  ⟨[], (List.append_nil _).symm, by simp, fun _ => track_nil _⟩

theorem Follows.trans {u v w : World} (h : Follows u v) (h' : Follows v w) : Follows u w := by
  obtain ⟨a, ha, hga, hta⟩ := h
  obtain ⟨b, hb, hgb, htb⟩ := h'
  refine ⟨a ++ b, ?_, ?_, ?_⟩
  · rw [hb, ha, List.append_assoc]
  · intro x hx
    rcases List.mem_append.mp hx with hx | hx
    · exact hga x hx
    · exact hgb x hx
  · intro key
    rw [marks_append, track_append, hta key]
    exact htb key

theorem Follows.of_key {w w' : World} {key : String} {new : List Entry}
    (hlog : w'.log = w.log ++ new) (hgen : ∀ x ∈ new, x.Genuine) (hkey : ∀ x ∈ new, x.key = key)
    (hother : ∀ k, k ≠ key → w'.incident k = w.incident k)
    (htrack : track (w.incident key) (marks key new) = some (w'.incident key)) : Follows w w' := by
  refine ⟨new, hlog, hgen, ?_⟩
  intro k
  by_cases hk : k = key
  · rw [hk]
    exact htrack
  · rw [marks_of_other fun x hx hxk => hk (hxk.symm.trans (hkey x hx)), hother k hk]
    exact track_nil _

/-! ## Reachability -/

section

variable {f : Formats} {r : Round} {draw : Nat → String} {w : World}

theorem put_self {β : Type} (m : String → β) (key : String) (v : β) : put m key v key = v := if_pos rfl

theorem put_of_ne {β : Type} (m : String → β) {key k : String} (v : β) (h : k ≠ key) :
    put m key v k = m k := if_neg h

theorem flip_follows (hw : Keyed w) (target : String) (up : Bool)
    (hbefore : w.downStates (reachKey r.sessionID target) = up) :
    let w' := ({ w with downStates := put w.downStates (reachKey r.sessionID target) !up }).record
      (reachabilityEvent f r target up)
    Keyed w' ∧ Follows w w' := by
  intro w'
  have hdown : w'.downStates = put w.downStates (reachKey r.sessionID target) !up := rfl
  have hepi : w'.episodes = w.episodes := rfl
  have hw' : Keyed w' := by
    refine ⟨?_, hw.episodes⟩
    intro key hkey
    by_cases hk : key = reachKey r.sessionID target
    · exact ⟨_, _, hk⟩
    · rw [hdown, put_of_ne _ _ hk] at hkey
      exact hw.down key hkey
  refine ⟨hw', ?_⟩
  refine @Follows.of_key _ _ (reachKey r.sessionID target)
    [.recorded (reachabilityEvent f r target up)] rfl ?_ ?_ ?_ ?_
  · simp [Entry.Genuine]
  · simp [Entry.key, reachabilityEvent]
  · intro k hk
    unfold World.incident
    rw [hdown, hepi, put_of_ne _ _ hk]
  · rw [hw.incident_reach, hw'.incident_reach, hbefore, hdown, put_self]
    cases up <;> simp [marks, Entry.key, Entry.mark, markOf, reachabilityEvent, track, stateOpen,
      stateResolved]

theorem reach_follows (hw : Keyed w) (target : String) :
    Keyed (reach f r w target) ∧ Follows w (reach f r w target) := by
  unfold reach
  dsimp only
  split
  · rename_i h
    simp only [Bool.and_eq_true, Bool.not_eq_true'] at h
    exact flip_follows hw target false h.2
  · split
    · rename_i h
      simp only [Bool.and_eq_true] at h
      exact flip_follows hw target true h.2
    · exact ⟨hw, .refl w⟩

/-! ## Thresholds -/

theorem keyed_put (hw : Keyed w) {w' : World} {s t o : String} {epi : Option EpisodeRecord}
    (hdown : w'.downStates = w.downStates)
    (hepi : w'.episodes = put w.episodes (thresholdKey s t o) epi)
    (hkey : ∀ x, epi = some x → x.dedupKey = thresholdKey s t o) : Keyed w' := by
  refine ⟨fun key hd => hw.down key (hdown ▸ hd), ?_⟩
  intro key x hx
  rw [hepi] at hx
  by_cases hk : key = thresholdKey s t o
  · rw [hk, put_self] at hx
    exact ⟨hk ▸ hkey x hx, s, t, o, hk⟩
  · rw [put_of_ne _ _ hk] at hx
    exact hw.episodes key x hx

theorem incident_put_of_ne {w' : World} {key k : String} {epi : Option EpisodeRecord}
    (hdown : w'.downStates = w.downStates) (hepi : w'.episodes = put w.episodes key epi)
    (hk : k ≠ key) : w'.incident k = w.incident k := by
  unfold World.incident
  rw [hdown, hepi, put_of_ne _ _ hk]

theorem put_follows (hw : Keyed w) {w' : World} {s t o : String} {epi : Option EpisodeRecord}
    {new : List Entry} (hdown : w'.downStates = w.downStates)
    (hepi : w'.episodes = put w.episodes (thresholdKey s t o) epi)
    (hdedup : ∀ x, epi = some x → x.dedupKey = thresholdKey s t o)
    (hlog : w'.log = w.log ++ new) (hgen : ∀ x ∈ new, x.Genuine)
    (hkey : ∀ x ∈ new, x.key = thresholdKey s t o)
    (htrack : track (((w.episodes (thresholdKey s t o)).filter EpisodeRecord.fired).map
        EpisodeRecord.corrID) (new.filterMap Entry.mark)
      = some ((epi.filter EpisodeRecord.fired).map EpisodeRecord.corrID)) :
    Keyed w' ∧ Follows w w' := by
  have hw' := keyed_put hw hdown hepi hdedup
  refine ⟨hw', .of_key hlog hgen hkey (fun k hk => incident_put_of_ne hdown hepi hk) ?_⟩
  have hmarks : marks (thresholdKey s t o) new = new.filterMap Entry.mark := by
    unfold marks
    rw [List.filter_eq_self.mpr fun x hx => beq_iff_eq.mpr (hkey x hx)]
  rw [hw.incident_threshold, hw'.incident_threshold, hmarks, hepi, put_self]
  exact htrack

/-- Closing resolves what was reported, unless there is no value to resolve it with. -/
theorem close_follows (hw : Keyed w) {s : Sample} {epi : EpisodeRecord}
    (hepi : w.episodes (thresholdKey r.sessionID s.target s.oid) = some epi)
    (hread : s.value = none → epi.fired = false) :
    Keyed (close f r w s epi (thresholdKey r.sessionID s.target s.oid)) ∧
      Follows w (close f r w s epi (thresholdKey r.sessionID s.target s.oid)) := by
  obtain ⟨hdedup, _⟩ := hw.episodes _ _ hepi
  cases hfired : epi.fired with
  | false =>
      have hquiet : close f r w s epi (thresholdKey r.sessionID s.target s.oid)
          = { w with
              episodes := put w.episodes (thresholdKey r.sessionID s.target s.oid) none
              table := deleteEpisode w.table (thresholdKey r.sessionID s.target s.oid) } := by
        unfold close
        cases s.value <;> simp [hfired]
      rw [hquiet]
      refine @put_follows _ hw _ _ _ _ _ [] rfl rfl (by simp) (List.append_nil _).symm
        (by simp) (by simp) ?_
      simp [hepi, Option.filter, hfired, track]
  | true =>
      cases hvalue : s.value with
      | none => exact absurd (hread hvalue) (by simp [hfired])
      | some value =>
          have hclose : close f r w s epi (thresholdKey r.sessionID s.target s.oid)
              = { w.record (resolvedEvent f r s epi value) with
                  episodes := put w.episodes (thresholdKey r.sessionID s.target s.oid) none
                  table := deleteEpisode w.table (thresholdKey r.sessionID s.target s.oid) } := by
            unfold close
            simp [hvalue, hfired, World.record]
          rw [hclose]
          refine @put_follows _ hw _ _ _ _ _ [.recorded (resolvedEvent f r s epi value)] rfl rfl
            (by simp) rfl (by simp [Entry.Genuine]) ?_ ?_
          · simp [Entry.key, resolvedEvent, hdedup]
          · simp [hepi, Option.filter, hfired, track, Entry.mark, markOf, resolvedEvent, stateOpen,
              stateResolved]

/-- A new episode takes the place of one of the other bound, or of none. -/
theorem start_follows (hw : Keyed w) {s : Sample} {kind : Bound} (now : Int)
    (hkind : ∀ epi, w.episodes (thresholdKey r.sessionID s.target s.oid) = some epi →
      epi.kind ≠ kind) :
    Keyed (startEpisode f r draw w s kind (thresholdKey r.sessionID s.target s.oid) now) ∧
      Follows w (startEpisode f r draw w s kind (thresholdKey r.sessionID s.target s.oid) now) := by
  refine put_follows hw rfl rfl ?_ rfl ?_ ?_ ?_
  · intro x hx
    rw [← Option.some.inj hx]
    rfl
  · intro x hx
    obtain ⟨old, hold, rfl⟩ := List.mem_map.mp hx
    obtain ⟨hold, hfired⟩ := Option.filter_eq_some_iff.mp (Option.mem_toList.mp hold)
    obtain ⟨hdedup, hkey⟩ := hw.episodes _ _ hold
    exact ⟨hfired, hkind old hold, hdedup ▸ hkey⟩
  · intro x hx
    obtain ⟨old, hold, rfl⟩ := List.mem_map.mp hx
    obtain ⟨hold, _⟩ := Option.filter_eq_some_iff.mp (Option.mem_toList.mp hold)
    exact (hw.episodes _ _ hold).1
  · have hquiet : (freshEpisode f r draw w s kind (thresholdKey r.sessionID s.target s.oid)
        now).fired = false := rfl
    cases hold : (w.episodes (thresholdKey r.sessionID s.target s.oid)).filter
        EpisodeRecord.fired with
    | none => simp [Option.filter, hquiet, track]
    | some old => simp [Option.filter, hquiet, track, Entry.mark]

theorem current_follows (hw : Keyed w) {s : Sample} {kind : Bound} (now : Int) :
    Keyed (currentEpisode f r draw w s kind (thresholdKey r.sessionID s.target s.oid) now) ∧
      Follows w (currentEpisode f r draw w s kind (thresholdKey r.sessionID s.target s.oid)
        now) := by
  unfold currentEpisode
  split
  · exact ⟨hw, .refl w⟩
  · rename_i hno
    refine start_follows hw now ?_
    intro epi hepi hkind
    exact hno (by simp [hepi, hkind])

theorem raise_follows (hw : Keyed w) {s : Sample} {epi : EpisodeRecord} (bound : Float64) (now : Int)
    (hepi : w.episodes (thresholdKey r.sessionID s.target s.oid) = some epi) :
    Keyed (raise f r w s epi (thresholdKey r.sessionID s.target s.oid) bound now) ∧
      Follows w (raise f r w s epi (thresholdKey r.sessionID s.target s.oid) bound now) := by
  obtain ⟨hdedup, _⟩ := hw.episodes _ _ hepi
  unfold raise
  dsimp only
  split
  · exact ⟨hw, .refl w⟩
  · rename_i hfired
    split
    · exact ⟨hw, .refl w⟩
    · refine put_follows hw rfl rfl ?_ rfl (by simp [Entry.Genuine]) ?_ ?_
      · intro x hx
        rw [← Option.some.inj hx]
        exact hdedup
      · simp [Entry.key, openedEvent, hdedup]
      · have hset : ({ epi with firedAt := f.format now } : EpisodeRecord).fired = true :=
          bne_iff_ne.mpr (f.format_ne now)
        simp [hepi, Option.filter, hfired, hset, track, Entry.mark, markOf, openedEvent, stateOpen]

/-- The reading is not one without a value for a breach that has been reported. -/
def Readable (r : Round) (w : World) (s : Sample) : Prop :=
  s.value = none → (w.episodes (thresholdKey r.sessionID s.target s.oid)).any EpisodeRecord.fired
    = false

theorem evaluate_follows (hw : Keyed w) {s : Sample} (hread : Readable r w s) :
    Keyed (evaluate f r draw w s) ∧ Follows w (evaluate f r draw w s) := by
  unfold evaluate
  dsimp only
  split
  · cases hepi : w.episodes (thresholdKey r.sessionID s.target s.oid) with
    | none => exact ⟨hw, .refl w⟩
    | some epi =>
        refine close_follows hw hepi ?_
        intro hnone
        have := hread hnone
        rwa [hepi] at this
  · rename_i kind bound _
    obtain ⟨hw1, hf1⟩ := @current_follows f _ draw _ hw s kind
      ((f.parse s.timestamp).getD s.now)
    split
    · rename_i epi hepi
      obtain ⟨hw2, hf2⟩ := raise_follows hw1 bound ((f.parse s.timestamp).getD s.now) hepi
      exact ⟨hw2, hf1.trans hf2⟩
    · exact ⟨hw1, hf1⟩

end

/-! ## Runs -/

section

variable (f : Formats) (draw : Nat → String)

/-- A run is a list of rounds. -/
def step (w : World) (r : Round) : Option World := some (ingest f r draw w)

/-- No reading of the round is one without a value for a breach reported by then. -/
def Spoken (w : World) (r : Round) : Prop :=
  ∀ before s after, r.samples = before ++ s :: after →
    Readable r (before.foldl (evaluate f r draw) (r.visit.foldl (reach f r) w)) s

end

variable {f : Formats} {draw : Nat → String}

theorem reaches_follow {r : Round} (targets : List String) (hw : Keyed w) :
    Keyed (targets.foldl (reach f r) w) ∧ Follows w (targets.foldl (reach f r) w) := by
  induction targets generalizing w with
  | nil => exact ⟨hw, .refl w⟩
  | cons target rest ih =>
      obtain ⟨hw1, hf1⟩ := reach_follows (f := f) (r := r) hw target
      obtain ⟨hw2, hf2⟩ := ih hw1
      exact ⟨hw2, hf1.trans hf2⟩

theorem evaluates_follow {r : Round} (samples : List Sample) (hw : Keyed w)
    (hread : ∀ before s after, samples = before ++ s :: after → Readable r (before.foldl (evaluate f r draw) w) s)
    :
    Keyed (samples.foldl (evaluate f r draw) w) ∧
      Follows w (samples.foldl (evaluate f r draw) w) := by
  induction samples generalizing w with
  | nil => exact ⟨hw, .refl w⟩
  | cons s rest ih =>
      obtain ⟨hw1, hf1⟩ := @evaluate_follows f _ draw _ hw _ (hread [] s rest rfl)
      have hrest := ih hw1 fun before x after hsplit =>
        hread (s :: before) x after (by rw [hsplit]; rfl)
      exact ⟨hrest.1, hf1.trans hrest.2⟩

/-- **A round takes every key from the incident open before it to the one open after it.** -/
theorem ingest_follows {r : Round} (hw : Keyed w) (hread : Spoken f draw w r) :
    Keyed (ingest f r draw w) ∧ Follows w (ingest f r draw w) := by
  obtain ⟨hw1, hf1⟩ := reaches_follow (f := f) (r := r) r.visit hw
  obtain ⟨hw2, hf2⟩ := evaluates_follow r.samples hw1 hread
  exact ⟨hw2, hf1.trans hf2⟩

/-- What opens an incident is the last letter before what leaves it open. -/
theorem opened_of_track {ms : List Mark} {incident : Option String} {corrID : String}
    (h : track incident ms = some (some corrID)) :
    (ms = [] ∧ incident = some corrID) ∨ ∃ front, ms = front ++ [.opened corrID] := by
  induction ms generalizing incident with
  | nil => exact .inl ⟨rfl, by simpa [track_nil] using h⟩
  | cons m rest ih =>
      have hrest : ∃ next, track next rest = some (some corrID) ∧
          (next = some corrID → m = .opened corrID) := by
        cases incident with
        | none =>
            cases m with
            | opened c => exact ⟨some c, h, fun hc => by rw [Option.some.inj hc]⟩
            | resolved c => exact absurd h (by simp [track])
            | flipped c => exact absurd h (by simp [track])
        | some open_ =>
            cases m with
            | opened c => exact absurd h (by simp [track])
            | resolved c | flipped c =>
                unfold track at h
                split at h
                · exact ⟨none, h, by simp⟩
                · cases h
      obtain ⟨next, hnext, hm⟩ := hrest
      rcases ih hnext with ⟨rfl, hn⟩ | ⟨front, rfl⟩
      · exact .inr ⟨[], by rw [hm hn]; rfl⟩
      · exact .inr ⟨m :: front, rfl⟩

/--
Incidents are paired: every key's word is read to its end and leaves open what the
evaluator holds open; a resolution comes right after its opening; a flip is one of
a reported threshold breach to the other bound, so that reachability has none and
alternates.
-/
structure Incidents (w : World) : Prop where
  paired : ∀ key, track none (marks key w.log) = some (w.incident key)
  resolved : ∀ key front corrID back, shown key w.log = front ++ .resolved corrID :: back →
    ∃ before, front = before ++ [.opened corrID]
  genuine : ∀ x ∈ w.log, x.Genuine
  reachability : ∀ s t,
    track none (shown (reachKey s t) w.log) = some (w.incident (reachKey s t))

/-- A resolution comes right after its opening, also when the flips are not shown. -/
theorem resolved_after_opened {ms : List Mark} (h : (track none ms).isSome)
    {front back : List Mark} {corrID : String}
    (hshown : (ms.filter fun m => !(m matches .flipped _)) = front ++ .resolved corrID :: back) :
    ∃ before, front = before ++ [.opened corrID] := by
  obtain ⟨a, tail, rfl, ha, htail⟩ := List.filter_eq_append_iff.mp hshown
  obtain ⟨b, c, rfl, hb, _, _⟩ := List.filter_eq_cons_iff.mp htail
  -- what stands between is flips, and a flip leaves nothing open
  rw [← List.append_assoc, track_append] at h
  obtain ⟨_, hread⟩ := Option.isSome_iff_exists.mp h
  obtain ⟨incident, hopen, hnext⟩ := Option.bind_eq_some_iff.mp hread
  have hincident : incident = some corrID := by
    cases incident with
    | none => exact absurd hnext (by simp [track])
    | some c =>
        unfold track at hnext
        split at hnext
        · rename_i hc
          rw [hc]
        · cases hnext
  rw [hincident] at hopen
  rcases opened_of_track hopen with ⟨_, hnone⟩ | ⟨before, hsplit⟩
  · cases hnone
  · rcases List.eq_nil_or_concat b with rfl | ⟨b', last, rfl⟩
    · rw [List.append_nil] at hsplit
      rw [← ha, hsplit, List.filter_append]
      exact ⟨_, rfl⟩
    · rw [List.concat_eq_append, ← List.append_assoc] at hsplit
      have hlast := (List.append_inj' hsplit rfl).2
      have hflip := hb last (by simp)
      rw [List.singleton_inj.mp hlast] at hflip
      exact absurd hflip (by simp)

theorem shown_reach {log : List Entry} (h : ∀ x ∈ log, x.Genuine) (s t : String) :
    shown (reachKey s t) log = marks (reachKey s t) log := by
  refine List.filter_eq_self.mpr ?_
  intro m hm
  obtain ⟨x, hx, hmark⟩ := List.mem_filterMap.mp hm
  obtain ⟨hlog, hkey⟩ := List.mem_filter.mp hx
  cases x with
  | recorded e =>
      unfold Entry.mark markOf at hmark
      dsimp only at hmark
      split at hmark
      · rw [← Option.some.inj hmark]
        rfl
      · split at hmark
        · rw [← Option.some.inj hmark]
          rfl
        · cases hmark
  | flipped epi next =>
      obtain ⟨_, _, s', t', o, hthreshold⟩ := h _ hlog
      have hreach : epi.dedupKey = reachKey s t := beq_iff_eq.mp hkey
      exact absurd (hreach.symm.trans hthreshold) (reachKey_ne_thresholdKey _ _ _ _ _)

theorem incidents_of_follows (h : Follows .start w) : Incidents w := by
  obtain ⟨new, hlog, hgen, htrack⟩ := h
  have hlog : w.log = new := hlog
  have hpaired : ∀ key, track none (marks key w.log) = some (w.incident key) :=
    fun key => hlog ▸ htrack key
  have hgen : ∀ x ∈ w.log, x.Genuine := hlog ▸ hgen
  refine ⟨hpaired, ?_, hgen, ?_⟩
  · intro key front corrID back hshown
    exact resolved_after_opened (by rw [hpaired key]; rfl) hshown
  · intro s t
    rw [shown_reach hgen]
    exact hpaired _

/--
**Incidents are paired, whatever is polled.**

For every sequence of rounds over any targets, OIDs, thresholds and values in which
no reading without a value comes for a breach that has been reported.
-/
theorem incidents_paired {rounds : List Round} {w : World}
    (h : Run (step f draw) (Spoken f draw) .start rounds w) : Incidents w := by
  have hinv : Keyed w ∧ Follows .start w := by
    refine h.invariant (I := fun w => Keyed w ∧ Follows .start w) ⟨keyed_start, .refl _⟩ ?_
    intro v r v' hi hread hs
    obtain ⟨hw, hf⟩ := ingest_follows hi.1 hread
    rw [← Option.some.inj hs]
    exact ⟨hw, hi.2.trans hf⟩
  exact incidents_of_follows hinv.2

/-! ### A threshold with two bounds -/

/-- What Go answers for the stamps and the numbers below. -/
def newYear : Formats where
  parse s :=
    if s == "2026-01-01T00:00:00Z" then some 1767225600000000000
    else if s == "2026-01-01T00:00:05Z" then some 1767225605000000000
    else none
  format t := if t < 1767225605000000000 then "2026-01-01T00:00:00Z" else "2026-01-01T00:00:05Z"
  format_ne t := by split <;> simp
  seconds d := d / 10 ^ 9
  g x := if x.bits == 0x4014000000000000 then "5" else if x.bits == 0x4024000000000000 then "10"
    else if x.bits == 0x4049000000000000 then "50" else if x.bits == 0x4059000000000000 then "100"
    else "500"

/-- From 10 to 100. -/
def band : Threshold where
  min := some ⟨0x4024000000000000⟩
  max := some ⟨0x4059000000000000⟩
  forSeconds := 0
  alertEnabled := true

/-- One reading of one OID of one target. -/
def reading (timestamp : String) (value : Option Float64) : Round where
  sessionID := "s1"
  sessionName := "session"
  samples := [{ target := "10.0.0.1", oid := "oid1", timestamp, value, error := "", now := 0 }]
  thresholds _ := some band
  visit := ["10.0.0.1"]
  visit_perm := by simp
  now := 0

/-- 5, then 50. -/
def dipAndBack : List Round :=
  [reading "2026-01-01T00:00:00Z" (some ⟨0x4014000000000000⟩),
    reading "2026-01-01T00:00:05Z" (some ⟨0x4049000000000000⟩)]

/-- Every reading has a value. -/
def valued (_ : World) (r : Round) : Bool := r.samples.all fun s => s.value.isSome

theorem valued_sound (w : World) (r : Round) (h : valued w r = true) :
    Spoken newYear toString w r := by
  intro before s after hsplit hnone
  have hs := List.all_eq_true.mp h s (by rw [hsplit]; simp)
  rw [hnone] at hs
  cases hs

theorem incidents_paired_dipAndBack :
    ∃ w, Run (step newYear toString) (Spoken newYear toString) .start dipAndBack w ∧
      shown (thresholdKey "s1" "10.0.0.1" "oid1") w.log = [.opened "0", .resolved "0"] ∧
      Incidents w := by
  have hend : (exec (checked (step newYear toString) valued) .start dipAndBack).map
      (fun w => shown (thresholdKey "s1" "10.0.0.1" "oid1") w.log)
        = some [.opened "0", .resolved "0"] := by decide
  obtain ⟨w, hw, hshown⟩ := Option.map_eq_some_iff.mp hend
  have hrun := run_of_checked valued_sound hw
  exact ⟨w, hrun, hshown, incidents_paired hrun⟩

/-- 5, then 500. -/
def belowThenAbove : List Round :=
  [reading "2026-01-01T00:00:00Z" (some ⟨0x4014000000000000⟩),
    reading "2026-01-01T00:00:05Z" (some ⟨0x407f400000000000⟩)]

/-- **What the journal shows does not alternate.** A value that jumps from below the band to
above it opens a second incident, and the first is never resolved. -/
theorem flip_opens_twice :
    ¬ ∀ (f : Formats) (draw : Nat → String) (rounds : List Round) (w : World),
        Run (step f draw) (fun _ _ => True) .start rounds w →
        ∀ key, (track none (shown key w.log)).isSome := by
  intro hall
  have hend : (exec (step newYear toString) .start belowThenAbove).map
      (fun w => shown (thresholdKey "s1" "10.0.0.1" "oid1") w.log)
        = some [.opened "0", .opened "1"] := by decide
  obtain ⟨w, hw, hshown⟩ := Option.map_eq_some_iff.mp hend
  have halt := hall _ _ _ w (run_of_exec hw) (thresholdKey "s1" "10.0.0.1" "oid1")
  rw [hshown] at halt
  cases halt

end SnmpLens.Monitor
