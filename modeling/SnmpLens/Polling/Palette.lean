import Mathlib.Data.List.Nodup
import Mathlib.Data.List.Chain

/-!
# The colours of a session's series

`frontend/src/utils/chartPalette.js` and the samples that arrive in
`frontend/src/stores/pollingStore.js`. A plan lists the series of the OIDs asked for, target by
target, and a colour is a position: in the plot of the OID, or in the one plot all of them share.
The targets of an OID are in the order in which its points are in the buffer (`targetsFor`), and the
buffer is cut at the front, so a position is kept only where that order is.
-/

namespace SnmpLens.ChartPalette

/-- `MAX_SERIES`, which is how many colours there are. -/
def maxSeries : Nat := 8

/-- `MAX_DATA_POINTS`. -/
def maxDataPoints : Nat := 5000

/-- A sample. -/
structure Point where
  target : String
  oid : String := ""
deriving DecidableEq, Repr

/-- A session of the store, with no text where it has no OID. -/
structure Session where
  oid : String := ""
  oids : List String := []
  targets : List String := []
  results : List Point := []
deriving DecidableEq, Repr

inductive Layout where
  | separate
  | stacked
deriving DecidableEq, Repr

structure Series where
  oid : String
  target : String
  key : String
  colorIndex : Nat
  capped : Bool
deriving DecidableEq, Repr

structure Plan where
  series : List Series
  dropped : Nat
deriving DecidableEq, Repr

def seriesKey (target oid : String) : String := target ++ "|" ++ oid

/-- One series of the plan: `running` series are planned for the OIDs in front, and `idx` for its own
one. -/
def seriesAt (layout : Layout) (running : Nat) (oid : String) (idx : Nat) (target : String) :
    Series :=
  let colorIndex := match layout with
    | .stacked => running + idx
    | .separate => idx
  { oid, target, key := seriesKey target oid, colorIndex, capped := decide (maxSeries ≤ colorIndex) }

namespace Session

/-- The OIDs asked for: the ones given, or else those of the session. -/
def asked (s : Session) (oids : List String) : List String :=
  if oids ≠ [] then oids else if s.oids ≠ [] then s.oids else [s.oid]

def wanted (s : Session) (oids : List String) : List String :=
  ((s.asked oids).filter fun oid => oid ≠ "").eraseDups

/-- The OID of a point. -/
def oidOf (s : Session) (r : Point) : String := if r.oid = "" then s.oid else r.oid

def targetsFor (s : Session) (oid : String) : List String :=
  let seen := ((s.results.filter fun r => s.oidOf r = oid).map Point.target).eraseDups
  if seen ≠ [] then seen else s.targets.eraseDups

/-- The loop over the OIDs. -/
def planFrom (s : Session) (layout : Layout) : Nat → List String → List Series
  | _, [] => []
  | running, oid :: rest =>
      (s.targetsFor oid).mapIdx (seriesAt layout running oid) ++
        s.planFrom layout (running + (s.targetsFor oid).length) rest

def seriesPlan (s : Session) (layout : Layout) (oids : List String) : Plan :=
  let series := s.planFrom layout 0 (s.wanted oids)
  { series, dropped := (series.filter Series.capped).length }

def cap (s : Session) : Nat := maxDataPoints * max 1 s.targets.length * max 1 s.oids.length

/-- The handler of `monitor:samples`. -/
def deliver (s : Session) (points : List Point) : Session :=
  let results := s.results ++ points
  { s with
    results := if s.cap < results.length then results.drop (results.length - s.cap) else results }

/-- The session as it is, and as it is after each of the batches. -/
def states (s : Session) : List (List Point) → List Session
  | [] => [s]
  | points :: batches => s :: (s.deliver points).states batches

end Session

/-! ## What a plan says -/

namespace Session

variable {s s' : Session} {layout : Layout} {oids : List String} {running running' : Nat}

/-- A target is planned for an OID that is asked for: where it has points of that OID, or where there
are none and it is one of the session's. -/
def Planned (s : Session) (oids : List String) (target oid : String) : Prop :=
  oid ∈ s.asked oids ∧ oid ≠ "" ∧
    ((∃ r ∈ s.results, s.oidOf r = oid ∧ r.target = target) ∨
      (∀ r ∈ s.results, s.oidOf r ≠ oid) ∧ target ∈ s.targets)

theorem nodup_eraseDups (xs : List String) : xs.eraseDups.Nodup := by
  induction hn : xs.length using Nat.strong_induction_on generalizing xs with
  | _ n ih =>
      cases xs with
      | nil => exact List.nodup_nil
      | cons x xs =>
          rw [List.eraseDups_cons, List.nodup_cons]
          have hshorter := List.length_filter_le (fun b => !b == x) xs
          refine ⟨?_, ih _ ?_ _ rfl⟩
          · intro hmem
            rw [List.mem_eraseDups, List.mem_filter] at hmem
            simp at hmem
          · rw [← hn, List.length_cons]
            omega

theorem nodup_targetsFor (s : Session) (oid : String) : (s.targetsFor oid).Nodup := by
  unfold targetsFor
  dsimp only
  split
  · exact nodup_eraseDups _
  · exact nodup_eraseDups _

theorem mem_targetsFor {target oid : String} : target ∈ s.targetsFor oid ↔
    (∃ r ∈ s.results, s.oidOf r = oid ∧ r.target = target) ∨
      (∀ r ∈ s.results, s.oidOf r ≠ oid) ∧ target ∈ s.targets := by
  unfold targetsFor
  dsimp only
  split
  · rename_i hseen
    rw [List.mem_eraseDups, List.mem_map]
    constructor
    · intro h
      obtain ⟨r, hr, htarget⟩ := h
      rw [List.mem_filter, decide_eq_true_eq] at hr
      exact .inl ⟨r, hr.1, hr.2, htarget⟩
    · intro h
      rcases h with ⟨r, hr, hoid, htarget⟩ | ⟨hnone, _⟩
      · exact ⟨r, List.mem_filter.mpr ⟨hr, decide_eq_true hoid⟩, htarget⟩
      · refine absurd ?_ hseen
        rw [List.filter_eq_nil_iff.mpr fun r hr h => hnone r hr (of_decide_eq_true h)]
        rfl
  · rename_i hseen
    rw [not_not] at hseen
    have hnone : ∀ r ∈ s.results, s.oidOf r ≠ oid := by
      intro r hr hoid
      have hmem : r.target ∈ ((s.results.filter fun r => s.oidOf r = oid).map
          Point.target).eraseDups := by
        rw [List.mem_eraseDups]
        exact List.mem_map_of_mem (List.mem_filter.mpr ⟨hr, decide_eq_true hoid⟩)
      rw [hseen] at hmem
      cases hmem
    rw [List.mem_eraseDups]
    constructor
    · intro h
      exact .inr ⟨hnone, h⟩
    · intro h
      rcases h with ⟨r, hr, hoid, _⟩ | ⟨_, h⟩
      · exact absurd hoid (hnone r hr)
      · exact h

theorem pairs_seriesAt (oid : String) (targets : List String) :
    (targets.mapIdx (seriesAt layout running oid)).map (fun a => (a.target, a.oid)) =
      targets.map fun target => (target, oid) := by
  apply List.ext_getElem?
  intro i
  rw [List.getElem?_map, List.getElem?_mapIdx, List.getElem?_map, Option.map_map]
  rfl

theorem pairs_planFrom (oids : List String) :
    (s.planFrom layout running oids).map (fun a => (a.target, a.oid)) =
      oids.flatMap fun oid => (s.targetsFor oid).map fun target => (target, oid) := by
  induction oids generalizing running with
  | nil => rfl
  | cons oid rest ih =>
      unfold planFrom
      rw [List.map_append, pairs_seriesAt, ih, List.flatMap_cons]

/-- **Every pair is planned once.** -/
theorem nodup_pairs (hoids : oids.Nodup) :
    ((s.planFrom layout running oids).map fun a => (a.target, a.oid)).Nodup := by
  rw [pairs_planFrom, List.nodup_flatMap]
  constructor
  · intro oid _
    exact (nodup_targetsFor s oid).map fun _ _ h => (Prod.mk.inj h).1
  · refine hoids.imp ?_
    intro oid oid' hne x hx hx'
    obtain ⟨t, _, rfl⟩ := List.mem_map.mp hx
    obtain ⟨t', _, h⟩ := List.mem_map.mp hx'
    exact hne (Prod.mk.inj h).2.symm

theorem mem_seriesAt {oid : String} {targets : List String} {a : Series} :
    a ∈ targets.mapIdx (seriesAt layout running oid) ↔
      ∃ idx, targets[idx]? = some a.target ∧ a = seriesAt layout running oid idx a.target := by
  rw [List.mem_iff_getElem?]
  constructor
  · intro h
    obtain ⟨i, hi⟩ := h
    rw [List.getElem?_mapIdx, Option.map_eq_some_iff] at hi
    obtain ⟨target, htarget, rfl⟩ := hi
    exact ⟨i, htarget, rfl⟩
  · intro h
    obtain ⟨i, hi, ha⟩ := h
    refine ⟨i, ?_⟩
    rw [List.getElem?_mapIdx, hi, Option.map_some, ← ha]

theorem mem_planFrom {a : Series} (ha : a ∈ s.planFrom layout running oids) :
    a.oid ∈ oids ∧ ∃ running idx, (s.targetsFor a.oid)[idx]? = some a.target ∧
      a = seriesAt layout running a.oid idx a.target := by
  induction oids generalizing running with
  | nil => cases ha
  | cons oid rest ih =>
      unfold planFrom at ha
      rcases List.mem_append.mp ha with ha | ha
      · obtain ⟨idx, hidx, heq⟩ := mem_seriesAt.mp ha
        have hoid : a.oid = oid := by
          rw [heq]
          rfl
        rw [hoid]
        exact ⟨List.mem_cons_self, running, idx, hidx, heq⟩
      · obtain ⟨hoid, hrest⟩ := ih ha
        exact ⟨List.mem_cons_of_mem _ hoid, hrest⟩

theorem colours_stacked (oids : List String) :
    (s.planFrom .stacked running oids).map Series.colorIndex =
      List.range' running (s.planFrom .stacked running oids).length := by
  induction oids generalizing running with
  | nil => rfl
  | cons oid rest ih =>
      unfold planFrom
      rw [List.map_append, ih, List.length_append, List.length_mapIdx, ← List.range'_append_1]
      congr 1
      apply List.ext_getElem?
      intro i
      rw [List.getElem?_map, List.getElem?_mapIdx, Option.map_map]
      rcases Nat.lt_or_ge i (s.targetsFor oid).length with hi | hi
      · rw [List.getElem?_range' hi, List.getElem?_eq_getElem hi, Option.map_some, Nat.one_mul]
        rfl
      · rw [List.getElem?_eq_none hi, List.getElem?_eq_none (by rw [List.length_range']; exact hi)]
        rfl

/-- What holds of every plan. -/
structure Sound (s : Session) (layout : Layout) (oids : List String) : Prop where
  once : ((s.seriesPlan layout oids).series.map fun a => (a.target, a.oid)).Nodup
  planned : ∀ target oid, (target, oid) ∈ (s.seriesPlan layout oids).series.map
    (fun a => (a.target, a.oid)) ↔ s.Planned oids target oid
  distinct : ∀ a ∈ (s.seriesPlan layout oids).series, ∀ b ∈ (s.seriesPlan layout oids).series,
    (layout = .stacked ∨ a.oid = b.oid) → a.colorIndex = b.colorIndex → a = b
  capped : ∀ a ∈ (s.seriesPlan layout oids).series, a.capped = true ↔ maxSeries ≤ a.colorIndex
  dropped : (s.seriesPlan layout oids).dropped =
    (s.seriesPlan layout oids).series.countP fun a => maxSeries ≤ a.colorIndex

theorem mem_wanted {oid : String} : oid ∈ s.wanted oids ↔ oid ∈ s.asked oids ∧ oid ≠ "" := by
  unfold wanted
  rw [List.mem_eraseDups, List.mem_filter, decide_eq_true_eq]

theorem capped_iff {a : Series} (ha : a ∈ s.planFrom layout running oids) :
    a.capped = true ↔ maxSeries ≤ a.colorIndex := by
  obtain ⟨_, running, idx, _, heq⟩ := mem_planFrom ha
  rw [heq]
  exact decide_eq_true_iff

/-- **Every plan lists the planned pairs once each, has one series at most for a colour of a plot,
and counts what is past the last colour.** -/
theorem sound (s : Session) (layout : Layout) (oids : List String) : s.Sound layout oids where
  once := nodup_pairs (nodup_eraseDups _)
  planned target oid := by
    unfold seriesPlan Planned
    dsimp only
    rw [pairs_planFrom, List.mem_flatMap, ← and_assoc, ← mem_wanted, ← mem_targetsFor]
    constructor
    · intro h
      obtain ⟨oid', hoid, hmem⟩ := h
      obtain ⟨target', htarget, heq⟩ := List.mem_map.mp hmem
      cases heq
      exact ⟨hoid, htarget⟩
    · intro h
      exact ⟨oid, h.1, List.mem_map_of_mem h.2⟩
  distinct a ha b hb hplot hcolour := by
    cases layout with
    | stacked =>
        have hnodup : ((s.planFrom .stacked 0 (s.wanted oids)).map Series.colorIndex).Nodup := by
          rw [colours_stacked]
          exact List.nodup_range'
        exact List.inj_on_of_nodup_map hnodup ha hb hcolour
    | separate =>
        have hoid : a.oid = b.oid := by
          rcases hplot with h | h
          · cases h
          · exact h
        obtain ⟨_, _, idx, hidx, heq⟩ := mem_planFrom ha
        obtain ⟨_, _, idx', hidx', heq'⟩ := mem_planFrom hb
        have hsame : idx = idx' := by
          rw [heq, heq'] at hcolour
          exact hcolour
        rw [hoid, hsame, hidx', Option.some_inj] at hidx
        rw [heq, heq', hoid, hsame, hidx]
        rfl
  capped a ha := capped_iff ha
  dropped := by
    unfold seriesPlan
    dsimp only
    rw [← List.countP_eq_length_filter]
    refine List.countP_congr fun a ha => ?_
    rw [capped_iff ha, decide_eq_true_iff]

end Session

/-! ## Where a plan keeps its colours -/

/-- Two orders of targets that agree: behind what both begin with they have nothing in common. -/
def agree : List String → List String → Bool
  | t :: ts, u :: us => if t = u then agree ts us else (t :: ts).all fun x => x ∉ u :: us
  | _, _ => true

theorem agree_index {ts us : List String} {t : String} {i j : Nat} (h : agree ts us = true)
    (hts : ts.Nodup) (hus : us.Nodup) (hi : ts[i]? = some t) (hj : us[j]? = some t) : i = j := by
  induction ts generalizing us i j with
  | nil => cases hi
  | cons x ts ih =>
      cases us with
      | nil => cases hj
      | cons y us =>
          unfold agree at h
          split at h
          · rename_i hxy
            rw [List.nodup_cons] at hts hus
            subst hxy
            cases i with
            | zero =>
                cases j with
                | zero => rfl
                | succ j =>
                    cases hi
                    have hlater : us[j]? = some t := hj
                    exact absurd (List.mem_of_getElem? hlater) hus.1
            | succ i =>
                cases j with
                | zero =>
                    cases hj
                    have hlater : ts[i]? = some t := hi
                    exact absurd (List.mem_of_getElem? hlater) hts.1
                | succ j => rw [ih h hts.2 hus.2 hi hj]
          · have hnone := List.all_eq_true.mp h t (List.mem_of_getElem? hi)
            exact absurd (List.mem_of_getElem? hj) (of_decide_eq_true hnone)

/-- A series of both plans has one colour. -/
def Plan.Keeps (p q : Plan) : Prop :=
  ∀ a ∈ p.series, ∀ b ∈ q.series, a.target = b.target → a.oid = b.oid → a.colorIndex = b.colorIndex

namespace Session

variable {s s' : Session} {layout : Layout} {oids : List String} {running running' : Nat}

/-- **Orders that agree keep the colours**, with as many targets as there were under every OID that is
not the last one where all of them share a plot. -/
theorem planFrom_keeps (hnodup : oids.Nodup)
    (hagree : ∀ oid ∈ oids, agree (s.targetsFor oid) (s'.targetsFor oid) = true)
    (hcount : layout = .stacked → ∀ oid ∈ oids.dropLast,
      (s.targetsFor oid).length = (s'.targetsFor oid).length)
    (hrunning : layout = .stacked → running = running') {a b : Series}
    (ha : a ∈ s.planFrom layout running oids) (hb : b ∈ s'.planFrom layout running' oids)
    (htarget : a.target = b.target) (hoid : a.oid = b.oid) : a.colorIndex = b.colorIndex := by
  induction oids generalizing running running' with
  | nil => cases ha
  | cons oid rest ih =>
      rw [List.nodup_cons] at hnodup
      -- a series of the first OID is not one of another
      have hfirst : ∀ {t : Session} {n : Nat} {c : Series},
          c ∈ (t.targetsFor oid).mapIdx (seriesAt layout n oid) → c.oid = oid := by
        intro t n c hc
        obtain ⟨idx, _, heq⟩ := mem_seriesAt.mp hc
        rw [heq]
        rfl
      unfold planFrom at ha hb
      rcases List.mem_append.mp ha with ha | ha <;> rcases List.mem_append.mp hb with hb | hb
      · obtain ⟨idx, hidx, heq⟩ := mem_seriesAt.mp ha
        obtain ⟨idx', hidx', heq'⟩ := mem_seriesAt.mp hb
        rw [← htarget] at hidx'
        have hsame := agree_index (hagree oid List.mem_cons_self) (nodup_targetsFor s oid)
          (nodup_targetsFor s' oid) hidx hidx'
        rw [heq, heq', hsame]
        cases layout with
        | separate => rfl
        | stacked =>
            rw [hrunning rfl]
            rfl
      · exact absurd (hfirst ha ▸ hoid ▸ (mem_planFrom hb).1) hnodup.1
      · exact absurd (hfirst hb ▸ hoid ▸ (mem_planFrom ha).1) hnodup.1
      · have hrest : rest ≠ [] := List.ne_nil_of_mem (mem_planFrom ha).1
        rw [List.dropLast_cons_of_ne_nil hrest] at hcount
        refine ih hnodup.2 (fun o ho => hagree o (List.mem_cons_of_mem _ ho))
          (fun hl o ho => hcount hl o (List.mem_cons_of_mem _ ho)) ?_ ha hb
        intro hl
        rw [hrunning hl, hcount hl oid List.mem_cons_self]

/-- What a batch must not do: bring the targets of an OID in another order, or change their number
under an OID that stands in front of another one in the same plot. -/
def Steady (s : Session) (layout : Layout) (oids : List String) (points : List Point) : Prop :=
  (∀ oid ∈ s.wanted oids, agree (s.targetsFor oid) ((s.deliver points).targetsFor oid) = true) ∧
    (layout = .stacked → ∀ oid ∈ (s.wanted oids).dropLast,
      (s.targetsFor oid).length = ((s.deliver points).targetsFor oid).length)

instance (points : List Point) : Decidable (s.Steady layout oids points) :=
  inferInstanceAs (Decidable (_ ∧ _))

theorem deliver_keeps {points : List Point} (h : s.Steady layout oids points) :
    (s.seriesPlan layout oids).Keeps ((s.deliver points).seriesPlan layout oids) := by
  intro a ha b hb htarget hoid
  have hsame : (s.deliver points).wanted oids = s.wanted oids := rfl
  unfold seriesPlan at ha hb
  dsimp only at ha hb
  rw [hsame] at hb
  exact planFrom_keeps (nodup_eraseDups _) h.1 h.2 (fun _ => rfl) ha hb htarget hoid

/-- Every batch of a run is steady. -/
def SteadyRun (s : Session) (layout : Layout) (oids : List String) : List (List Point) → Prop
  | [] => True
  | points :: batches =>
      s.Steady layout oids points ∧ (s.deliver points).SteadyRun layout oids batches

/-- Two OIDs of two targets, before the first sample. -/
def fresh : Session := { oid := "A", oids := ["A", "B"], targets := ["t1", "t2"] }

end Session

end SnmpLens.ChartPalette
