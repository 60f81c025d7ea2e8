import SnmpLens.Monitor.Restart
import SnmpLens.Poll.GetMany

/-!
# Whether a target answers

What becomes of an answer on its way from the poll to a verdict: `buildFetch` of
`internal/app/monitor.go` makes a reading of it, `tick` of `pkg/monitor/scheduler.go` a
sample, and `Ingest` counts it. An answer that is no number has no value and no error.
`Ingest` counts a sample as failed where it has no value, so a target that answers with
nothing but such answers is reported as one that does not (`reachability_sound_iff`).
-/

namespace SnmpLens.Monitor

open Events Utf8

/-! ## From an answer to a sample -/

/-- A Go string, one character for each byte. -/
def goString (b : Octets) : String := String.ofList (b.map fun x => Char.ofNat x.toNat)

theorem goString_eq_empty {b : Octets} : goString b = "" ↔ b = [] := by
  unfold goString
  rw [← String.toList_eq_nil_iff, String.toList_ofList, List.map_eq_nil_iff]

/-- What `buildFetch` returns: every OID of every target. Without a client every reading is an
error. -/
def readings (oids : List Octets) (targets : List String)
    (polled : Option (List (String × Poll.MultiResult))) : List (String × Poll.Reading) :=
  match polled with
  | none => targets.flatMap fun target =>
      oids.map fun oid => (target, { oid, error := octets "no SNMP client" })
  | some results => results.flatMap fun m =>
      oids.map fun oid => (m.1, Poll.toReading oid (m.2.results oid) ((m.2.errors oid).getD []))

/-- What `tick` hands to the evaluator; `f64` is the conversion to `float64`. -/
def sampleOf (f64 : Int → Float64) (stamp : String) (now : Int) (x : String × Poll.Reading) :
    Sample where
  target := x.1
  oid := goString x.2.oid
  timestamp := stamp
  value := x.2.value.map f64
  error := goString x.2.error
  now := now

/-! ## What a round says of a target -/

section

variable {f : Formats} {r : Round} {draw : Nat → String} {w : World} {target : String}

/-- The events a round adds. -/
def news (f : Formats) (r : Round) (draw : Nat → String) (w : World) :
    List (String × String × String × String) :=
  (ingest f r draw w).headlines.drop w.headlines.length

/-- **A target is held to be down after a round if and only if every reading of it in the round
carries an error**, it is reported down when it was up, and it is reported up by the first round
in which it answers anything. -/
structure Sound (f : Formats) (r : Round) (draw : Nat → String) (w : World) (target : String) :
    Prop where
  state : (ingest f r draw w).downStates (reachKey r.sessionID target) = true ↔
    ∀ s ∈ r.samplesOf target, s.error ≠ ""
  down : reachHeadline (reachKey r.sessionID target) false ∈ news f r draw w ↔
    w.downStates (reachKey r.sessionID target) = false ∧ ∀ s ∈ r.samplesOf target, s.error ≠ ""
  up : reachHeadline (reachKey r.sessionID target) true ∈ news f r draw w ↔
    w.downStates (reachKey r.sessionID target) = true ∧ ∃ s ∈ r.samplesOf target, s.error = ""

theorem down_iff : r.down target = true ↔
    ∀ s ∈ r.samplesOf target, s.value = none ∨ s.error ≠ "" := by
  unfold Round.down
  rw [beq_iff_eq, List.countP_eq_length]
  simp

/-- Every target is judged by the state it was in before the round. -/
theorem reaches_headlines (targets : List String) (hnd : targets.Nodup) (w : World) :
    (targets.foldl (reach f r) w).headlines = w.headlines ++ targets.flatMap fun t =>
      said (reachKey r.sessionID t) (w.downStates (reachKey r.sessionID t)) (r.down t) := by
  induction targets generalizing w with
  | nil => simp
  | cons t rest ih =>
      obtain ⟨hout, hnd⟩ := List.nodup_cons.mp hnd
      rw [List.foldl_cons, ih hnd, reach_headlines, List.flatMap_cons, List.append_assoc]
      congr 2
      refine List.flatMap_congr fun t' ht' => ?_
      have hne : reachKey r.sessionID t' ≠ reachKey r.sessionID t :=
        fun h => hout (reachKey_inj h ▸ ht')
      rw [reach_downStates, put_of_ne _ _ hne]

theorem evaluates_adds (samples : List Sample) (w : World) :
    Adds w (samples.foldl (evaluate f r draw) w) := by
  induction samples generalizing w with
  | nil => exact .refl rfl
  | cons s rest ih => exact (evaluate_adds w s).trans (ih _)

theorem mem_news (ht : target ∈ r.visit) (up : Bool) :
    reachHeadline (reachKey r.sessionID target) up ∈ news f r draw w ↔
      w.downStates (reachKey r.sessionID target) = up ∧ r.down target = !up := by
  obtain ⟨new, hnone, hnew⟩ := @evaluates_adds f r draw r.samples
    (r.visit.foldl (reach f r) w)
  have hall : news f r draw w = (r.visit.flatMap fun t =>
      said (reachKey r.sessionID t) (w.downStates (reachKey r.sessionID t)) (r.down t)) ++ new := by
    unfold news ingest
    rw [hnew, reaches_headlines _ r.visit_nodup, List.append_assoc, List.drop_left]
  have hkey : ∀ up' key key', reachHeadline key up = reachHeadline key' up' → key = key' :=
    fun up' key key' h => congrArg (fun x => x.2.1) h
  have hsaid : ∀ was now, reachHeadline (reachKey r.sessionID target) up
      ∈ said (reachKey r.sessionID target) was now ↔ was = up ∧ now = !up := by
    intro was now
    cases up <;> cases was <;> cases now <;>
      simp [said, reachHeadline, kindReachabilityUp, kindReachabilityDown]
  rw [hall, List.mem_append, ← hsaid]
  constructor
  · intro h
    obtain ⟨t, _, hmem⟩ := List.mem_flatMap.mp (h.resolve_right (hnone _ _))
    have hsame : t = target := by
      unfold said at hmem
      split at hmem
      · exact reachKey_inj (hkey _ _ _ (List.mem_singleton.mp hmem)).symm
      · split at hmem
        · exact reachKey_inj (hkey _ _ _ (List.mem_singleton.mp hmem)).symm
        · cases hmem
    exact hsame ▸ hmem
  · exact fun h => .inl (List.mem_flatMap.mpr ⟨target, ht, h⟩)

/-- **A round judges a target by its errors if a reading of it has a number, or all of them are
errors, and not otherwise.** -/
theorem sound_iff (ht : target ∈ r.visit) :
    Sound f r draw w target ↔
      (∃ s ∈ r.samplesOf target, s.value ≠ none ∧ s.error = "") ∨
        ∀ s ∈ r.samplesOf target, s.error ≠ "" := by
  have hstate : (ingest f r draw w).downStates (reachKey r.sessionID target) = r.down target := by
    unfold ingest
    rw [evaluates_downStates, reaches_downStates _ r.visit_nodup]
    obtain ⟨t, hfind⟩ : ∃ t, r.visit.find? (fun t =>
        reachKey r.sessionID t == reachKey r.sessionID target) = some t := by
      refine Option.isSome_iff_exists.mp (List.find?_isSome.mpr ⟨target, ht, ?_⟩)
      exact beq_self_eq_true _
    have hkey : (reachKey r.sessionID t == reachKey r.sessionID target) = true :=
      List.find?_some (p := fun t => reachKey r.sessionID t == reachKey r.sessionID target) hfind
    rw [hfind, reachKey_inj (beq_iff_eq.mp hkey)]
    rfl
  constructor
  · intro h
    by_cases hall : ∀ s ∈ r.samplesOf target, s.error ≠ ""
    · exact .inr hall
    · -- it is not down, so a reading has not failed
      have hup : r.down target ≠ true := fun hdown => hall (h.state.mp (hstate.trans hdown))
      rw [Ne, down_iff] at hup
      simp only [not_forall, not_or, not_not] at hup
      obtain ⟨s, hs, hvalue, herror⟩ := hup
      exact .inl ⟨s, hs, hvalue, herror⟩
  · intro h
    have hdown : r.down target = true ↔ ∀ s ∈ r.samplesOf target, s.error ≠ "" := by
      rw [down_iff]
      constructor
      · intro hfailed
        refine h.resolve_left ?_
        rintro ⟨s, hs, hvalue, herror⟩
        exact (hfailed s hs).elim hvalue fun hne => hne herror
      · exact fun herrors s hs => .inr (herrors s hs)
    refine ⟨by rw [hstate, hdown], ?_, ?_⟩
    · rw [mem_news ht]
      exact and_congr_right fun _ => hdown
    · rw [mem_news ht]
      refine and_congr_right fun _ => ?_
      rw [Bool.not_true, ← Bool.not_eq_true, hdown]
      simp

end

/-- The same of a poll: what the target answered decides. -/
theorem reachability_sound_iff {f : Formats} {f64 : Int → Float64} {draw : Nat → String} {r : Round}
    {oids : List Octets} {targets : List String} {polled : Option (List (String × Poll.MultiResult))}
    {stamp : String} {now : Int}
    (hr : r.samples = (readings oids targets polled).map (sampleOf f64 stamp now)) (w : World)
    {target : String} (ht : target ∈ r.samples.map Sample.target) :
    Sound f r draw w target ↔
      (∃ x ∈ readings oids targets polled, x.1 = target ∧ x.2.value ≠ none ∧ x.2.error = []) ∨
        ∀ x ∈ readings oids targets polled, x.1 = target → x.2.error ≠ [] := by
  have hvisit : target ∈ r.visit := r.visit_perm.mem_iff.mpr (List.mem_dedup.mpr ht)
  have hmem : ∀ s, s ∈ r.samplesOf target ↔
      ∃ x ∈ readings oids targets polled, x.1 = target ∧ sampleOf f64 stamp now x = s := by
    intro s
    unfold Round.samplesOf
    rw [hr, List.mem_filter, List.mem_map]
    constructor
    · rintro ⟨⟨x, hx, rfl⟩, htarget⟩
      exact ⟨x, hx, beq_iff_eq.mp htarget, rfl⟩
    · rintro ⟨x, hx, htarget, rfl⟩
      exact ⟨⟨x, hx, rfl⟩, beq_iff_eq.mpr htarget⟩
  rw [sound_iff hvisit]
  have herror : ∀ x, (sampleOf f64 stamp now x).error = "" ↔ x.2.error = [] :=
    fun x => goString_eq_empty
  have hvalue : ∀ x, (sampleOf f64 stamp now x).value = none ↔ x.2.value = none :=
    fun x => Option.map_eq_none_iff
  refine or_congr ?_ ?_
  · constructor
    · rintro ⟨s, hs, hv, he⟩
      obtain ⟨x, hx, htarget, rfl⟩ := (hmem s).mp hs
      exact ⟨x, hx, htarget, fun hn => hv ((hvalue x).mpr hn), (herror x).mp he⟩
    · rintro ⟨x, hx, htarget, hv, he⟩
      exact ⟨_, (hmem _).mpr ⟨x, hx, htarget, rfl⟩, fun hn => hv ((hvalue x).mp hn), (herror x).mpr he⟩
  · constructor
    · intro h x hx htarget he
      exact h _ ((hmem _).mpr ⟨x, hx, htarget, rfl⟩) ((herror x).mpr he)
    · intro h s hs he
      obtain ⟨x, hx, htarget, rfl⟩ := (hmem s).mp hs
      exact h x hx htarget ((herror x).mp he)

/-! ## A name and an uptime -/

/-- `sysName` and `sysUpTime`. -/
def asked : List Octets := [octets ".1.3.6.1.2.1.1.5.0", octets ".1.3.6.1.2.1.1.3.0"]

def answering (name uptime : Option Poll.Result) : Poll.MultiResult where
  results oid := if oid = octets ".1.3.6.1.2.1.1.5.0" then name else uptime

def sysName : Poll.Result where
  oid := octets ".1.3.6.1.2.1.1.5.0"
  type := octets "OctetString"
  value := .text (octets "sw-01")

def sysUpTime : Poll.Result where
  oid := octets ".1.3.6.1.2.1.1.3.0"
  type := octets "TimeTicks"
  value := .int64 1200

/-- A poll of one target. -/
def pollOf (oids : List Octets) (m : Poll.MultiResult) : List Sample :=
  (readings oids ["10.0.0.1"] (some [("10.0.0.1", m)])).map
    (sampleOf (fun _ => ⟨0⟩) "2026-01-01T00:00:00Z" 0)

def roundOf (samples : List Sample) (h : ["10.0.0.1"].Perm (samples.map Sample.target).dedup) : Round where
  sessionID := "s1"
  sessionName := "session"
  samples := samples
  thresholds _ := none
  visit := ["10.0.0.1"]
  visit_perm := h
  now := 0

/-- Both are answered, one of them with a number. -/
def bothAnswered : Round := roundOf (pollOf asked (answering (some sysName) (some sysUpTime)))
  (by decide)

theorem reachability_sound_iff_bothAnswered :
    (Sound newYear bothAnswered toString .start "10.0.0.1" ↔
      (∃ x ∈ readings asked [] (some [("10.0.0.1", answering (some sysName) (some sysUpTime))]),
        x.1 = "10.0.0.1" ∧ x.2.value ≠ none ∧ x.2.error = []) ∨
      ∀ x ∈ readings asked [] (some [("10.0.0.1", answering (some sysName) (some sysUpTime))]),
        x.1 = "10.0.0.1" → x.2.error ≠ []) ∧
    news newYear bothAnswered toString .start = [] := by
  exact ⟨reachability_sound_iff rfl .start (by decide), by decide⟩

/-- The name is asked for alone, and answered. -/
def nameAnswered : Round := roundOf (pollOf (asked.take 1) (answering (some sysName) none))
  (by decide)

/-- **A target that answers with a name is reported to have stopped responding.** -/
theorem answering_reported_down :
    (∀ x ∈ readings (asked.take 1) [] (some [("10.0.0.1", answering (some sysName) none)]),
      x.2.error = []) ∧
    reachHeadline (reachKey "s1" "10.0.0.1") false ∈ news newYear nameAnswered toString .start ∧
    ¬ Sound newYear nameAnswered toString .start "10.0.0.1" := by
  have hclear : ∀ s ∈ nameAnswered.samplesOf "10.0.0.1", s.error = "" := by decide
  have hdown : reachHeadline (reachKey "s1" "10.0.0.1") false
      ∈ news newYear nameAnswered toString .start := by decide
  refine ⟨by decide, hdown, fun h => ?_⟩
  obtain ⟨s, hs⟩ : ∃ s, s ∈ nameAnswered.samplesOf "10.0.0.1" :=
    List.exists_mem_of_ne_nil _ (by decide)
  exact (h.down.mp hdown).2 s hs (hclear s hs)

end SnmpLens.Monitor
