import Mathlib.Algebra.BigOperators.Group.List.Basic
import Mathlib.Data.Finset.Card
import SnmpLens.Presets.Validate

/-!
# What a preset costs

`Estimate` and `PollOIDs` of `pkg/preset/preset.go`, and `ThresholdsFor` of `threshold.go`.
The estimate is made of the preset as it is written: what its widgets list is counted once
for each reading, and a template for as many readings as it may become. `estimate_counts`
says so of the figures; after a walk there are no readings but those that were listed and
those the templates became, which is why the estimate is a bound.
-/

namespace SnmpLens.Presets

open Utf8 Strings Events

/-! ## What is polled -/

/-- `PollOIDs`: every reading once, in the order of the widgets. -/
def pollOIDs (p : Preset) : List Octets :=
  p.widgets.foldl (fun out w =>
    w.oids.foldl (fun out oid =>
      if hasPlaceholder oid then out
      else if normaliseOID oid ∈ out then out
      else out ++ [normaliseOID oid]) out) []

/-- `ThresholdsFor`: the band of every reading that is watched. -/
def thresholdsFor (p : Preset) : List (Octets × Threshold) :=
  p.widgets.foldl (fun out w =>
    match w.threshold with
    | none => out
    | some band =>
        w.oids.foldl (fun out oid =>
          if hasPlaceholder oid then out else put out (normaliseOID oid) band) out) []

/-! ## The estimate -/

structure Cost where
  oids : Nat := 0
  widgets : Nat := 0
  intervalSec : Int := 0
  pollsPerDay : Nat := 0
  /-- How many of the OIDs are counted by a bound. -/
  discovered : Nat := 0
  varbindsPerDay : Nat := 0
  watched : Nat := 0
  alerting : Nat := 0
deriving DecidableEq, Repr

def secondsPerDay : Nat := 86400

/-- `Estimate` on its way: the cost so far, and the readings counted and watched. -/
structure Tally where
  cost : Cost
  seen : List Octets := []
  watched : List Octets := []
deriving Repr

/-- A reading is counted once, a template always. -/
def Tally.read (t : Tally) (key : Octets) (n : Nat) : Tally :=
  if key = [] ∨ key ∉ t.seen then
    { t with
      seen := key :: t.seen
      cost := { t.cost with
        oids := t.cost.oids + n
        discovered := if key = [] then t.cost.discovered + n else t.cost.discovered } }
  else t

/-- So is a reading under a band. -/
def Tally.watch (t : Tally) (band : Option Threshold) (key : Octets) (n : Nat) : Tally :=
  match band with
  | none => t
  | some band =>
      if key = [] ∨ key ∉ t.watched then
        { t with
          watched := key :: t.watched
          cost := { t.cost with
            watched := t.cost.watched + n
            alerting := if band.alerts then t.cost.alerting + n else t.cost.alerting } }
      else t

def Tally.add (w : Widget) (t : Tally) (oid : Octets) : Tally :=
  let per := if w.discover.isSome then discoverInstanceLimit w else 0
  if hasPlaceholder oid then
    -- a template is never the same reading twice, so it has no key
    if per = 0 then t else (t.read [] per).watch w.threshold [] per
  else (t.read (normaliseOID oid) 1).watch w.threshold (normaliseOID oid) 1

/-- The loop of `Estimate`. -/
def Tally.run (t : Tally) (ws : List Widget) : Tally :=
  ws.foldl (fun t w => w.oids.foldl (Tally.add w) t) t

def estimate (p : Preset) : Cost :=
  let start : Cost := { widgets := p.widgets.length, intervalSec := p.intervalSec }
  let c := (Tally.run { cost := start } p.widgets).cost
  if c.intervalSec ≤ 0 then c
  else
    let pollsPerDay := secondsPerDay / c.intervalSec.toNat
    { c with pollsPerDay, varbindsPerDay := pollsPerDay * c.oids }

/-! ## Readings -/

/-- The keys of what some widgets list, as often as it is listed. -/
def listed (ws : List Widget) : List Octets := ws.flatMap fun w => w.fixed.map normaliseOID

/-- The readings some widgets list. -/
def keys (ws : List Widget) : Finset Octets := (listed ws).toFinset

theorem mem_keys {ws : List Widget} {key : Octets} :
    key ∈ keys ws ↔ ∃ w ∈ ws, ∃ oid ∈ w.fixed, normaliseOID oid = key := by
  simp [keys, listed]

theorem keys_cons (w : Widget) (ws : List Widget) :
    keys (w :: ws) = (w.fixed.map normaliseOID).toFinset ∪ keys ws := by
  simp [keys, listed]

/-- The widgets whose readings are watched. -/
def watching (ws : List Widget) : List Widget := ws.filter fun w => w.threshold.isSome

/-- How many readings the templates of some widgets may become. -/
def reach (ws : List Widget) : Nat :=
  (ws.map fun w => discoverInstanceLimit w * w.templates.length).sum

theorem foldl_fixed {σ : Type} (w : Widget) (f : σ → Octets → σ) (s : σ) :
    w.oids.foldl (fun s oid => if hasPlaceholder oid then s else f s oid) s = w.fixed.foldl f s := by
  unfold Widget.fixed
  rw [List.foldl_filter]
  congr 1
  funext s oid
  cases hasPlaceholder oid <;> rfl

/-! ### What is polled, and what is watched -/

/-- Readings in a row, each once. -/
structure Listing (out : List Octets) (ks : Finset Octets) : Prop where
  nodup : out.Nodup
  toFinset : out.toFinset = ks

theorem Listing.length {out : List Octets} {ks : Finset Octets} (h : Listing out ks) :
    out.length = ks.card := by
  rw [← h.toFinset, List.toFinset_card_of_nodup h.nodup]

theorem pollOIDs_listing (p : Preset) : Listing (pollOIDs p) (keys p.widgets) := by
  have hrun : ∀ ks out, Listing out out.toFinset →
      Listing (List.foldl (fun out key => if key ∈ out then out else out ++ [key]) out ks)
        (out.toFinset ∪ ks.toFinset) := by
    intro ks
    induction ks with
    | nil => intro out h; simpa using h
    | cons key ks ih =>
        intro out h
        rw [List.foldl_cons]
        by_cases hkey : key ∈ out
        · rw [if_pos hkey]
          have := ih out h
          rwa [List.toFinset_cons, Finset.union_insert, Finset.insert_eq_of_mem
            (Finset.mem_union_left _ (List.mem_toFinset.mpr hkey))]
        · rw [if_neg hkey]
          have hnodup : (out ++ [key]).Nodup := List.concat_eq_append ▸ h.nodup.concat hkey
          have := ih (out ++ [key]) ⟨hnodup, rfl⟩
          simpa only [List.toFinset_append, List.toFinset_cons, List.toFinset_nil,
            insert_empty_eq, Finset.union_assoc, Finset.singleton_union] using this
  have hpoll : pollOIDs p =
      (listed p.widgets).foldl (fun out key => if key ∈ out then out else out ++ [key]) [] := by
    unfold pollOIDs listed
    rw [List.foldl_flatMap]
    congr 1
    funext out w
    rw [foldl_fixed, List.foldl_map]
  have := hrun (listed p.widgets) [] ⟨List.nodup_nil, rfl⟩
  rw [List.toFinset_nil, Finset.empty_union] at this
  exact hpoll ▸ this

theorem keys_put {ν : Type} {m : List (Octets × ν)} (hm : (m.map Prod.fst).Nodup) (key : Octets)
    (value : ν) :
    Listing ((put m key value).map Prod.fst) (insert key (m.map Prod.fst).toFinset) := by
  unfold put
  rw [List.map_append, List.map_cons, List.map_nil]
  have hnot : key ∉ (m.filter fun e => decide (e.1 ≠ key)).map Prod.fst := by simp
  refine ⟨?_, ?_⟩
  · have hsub : ((m.filter fun e => decide (e.1 ≠ key)).map Prod.fst).Nodup :=
      hm.sublist (List.filter_sublist.map Prod.fst)
    exact List.concat_eq_append ▸ hsub.concat hnot
  · ext k
    by_cases hk : k = key <;> simp [hk]

theorem thresholdsFor_listing (p : Preset) :
    Listing ((thresholdsFor p).map Prod.fst) (keys (watching p.widgets)) := by
  have hfixed : ∀ (band : Threshold) (oids : List Octets) (m : List (Octets × Threshold)),
      (m.map Prod.fst).Nodup →
      Listing ((oids.foldl (fun m oid => put m (normaliseOID oid) band) m).map Prod.fst)
        ((m.map Prod.fst).toFinset ∪ (oids.map normaliseOID).toFinset) := by
    intro band oids
    induction oids with
    | nil => intro m hm; exact ⟨hm, by simp⟩
    | cons oid oids ih =>
        intro m hm
        have hput := keys_put hm (normaliseOID oid) band
        have := ih _ hput.nodup
        rw [hput.toFinset] at this
        rw [List.foldl_cons, List.map_cons, List.toFinset_cons]
        simpa only [Finset.insert_union, Finset.union_insert] using this
  have hrun : ∀ (ws : List Widget) (m : List (Octets × Threshold)), (m.map Prod.fst).Nodup →
      Listing ((ws.foldl (fun out w =>
        match w.threshold with
        | none => out
        | some band => w.oids.foldl (fun out oid =>
            if hasPlaceholder oid then out else put out (normaliseOID oid) band) out) m).map
          Prod.fst) ((m.map Prod.fst).toFinset ∪ keys (watching ws)) := by
    intro ws
    induction ws with
    | nil => intro m hm; exact ⟨hm, by simp [keys, listed, watching]⟩
    | cons w ws ih =>
        intro m hm
        rw [List.foldl_cons]
        cases hband : w.threshold with
        | none =>
            have hskip : watching (w :: ws) = watching ws :=
              List.filter_cons_of_neg (by simp [hband])
            rw [hskip]
            exact ih m hm
        | some band =>
            have hkeep : watching (w :: ws) = w :: watching ws :=
              List.filter_cons_of_pos (by simp [hband])
            have hw := hfixed band w.fixed m hm
            have := ih _ hw.nodup
            rw [hw.toFinset, Finset.union_assoc] at this
            rw [hkeep, keys_cons]
            dsimp only
            rw [foldl_fixed]
            exact this
  have := hrun p.widgets [] List.nodup_nil
  rwa [List.map_nil, List.toFinset_nil, Finset.empty_union] at this

/-! ### What is counted -/

/-- What a tally has counted: the readings `R`, and `W` of them as watched, each once, and
besides them `n` and `m` for templates. -/
structure Tally.Counts (t : Tally) (R W : Finset Octets) (n m : Nat) : Prop where
  oids : t.cost.oids = R.card + n
  discovered : t.cost.discovered = n
  watched : t.cost.watched = W.card + m
  seen : ∀ key ≠ [], key ∈ t.seen ↔ key ∈ R
  marked : ∀ key ≠ [], key ∈ t.watched ↔ key ∈ W

namespace Tally.Counts

variable {t : Tally} {w : Widget} {R W : Finset Octets} {n m : Nat}

theorem read (h : t.Counts R W n m) {key : Octets} (hkey : key ≠ []) :
    (t.read key 1).Counts (insert key R) W n m := by
  unfold Tally.read
  by_cases hseen : key ∈ t.seen
  · have hR : key ∈ R := (h.seen key hkey).mp hseen
    rw [if_neg (by simp [hkey, hseen]), Finset.insert_eq_of_mem hR]
    exact h
  · have hR : key ∉ R := fun hR => hseen ((h.seen key hkey).mpr hR)
    rw [if_pos (.inr hseen)]
    refine ⟨?_, ?_, h.watched, fun k hk => ?_, h.marked⟩
    · show t.cost.oids + 1 = _
      rw [h.oids, Finset.card_insert_of_notMem hR]
      omega
    · show (if key = [] then _ else _) = n
      rw [if_neg hkey, h.discovered]
    · rw [List.mem_cons, Finset.mem_insert, h.seen k hk]

theorem template (h : t.Counts R W n m) (per : Nat) : (t.read [] per).Counts R W (n + per) m := by
  unfold Tally.read
  rw [if_pos (.inl rfl)]
  refine ⟨?_, ?_, h.watched, fun k hk => ?_, h.marked⟩
  · show t.cost.oids + per = _
    rw [h.oids, Nat.add_assoc]
  · show t.cost.discovered + per = _
    rw [h.discovered]
  · rw [List.mem_cons, h.seen k hk]
    exact or_iff_right hk

theorem watch (h : t.Counts R W n m) {key : Octets} (hkey : key ≠ []) {band : Option Threshold}
    (hband : band.isSome = true) : (t.watch band key 1).Counts R (insert key W) n m := by
  obtain ⟨band, rfl⟩ := Option.isSome_iff_exists.mp hband
  unfold Tally.watch
  dsimp only
  by_cases hseen : key ∈ t.watched
  · have hW : key ∈ W := (h.marked key hkey).mp hseen
    rw [if_neg (by simp [hkey, hseen]), Finset.insert_eq_of_mem hW]
    exact h
  · have hW : key ∉ W := fun hW => hseen ((h.marked key hkey).mpr hW)
    rw [if_pos (.inr hseen)]
    refine ⟨h.oids, h.discovered, ?_, h.seen, fun k hk => ?_⟩
    · show t.cost.watched + 1 = _
      rw [h.watched, Finset.card_insert_of_notMem hW]
      omega
    · rw [List.mem_cons, Finset.mem_insert, h.marked k hk]

theorem watchTemplate (h : t.Counts R W n m) (per : Nat) {band : Option Threshold}
    (hband : band.isSome = true) : (t.watch band [] per).Counts R W n (m + per) := by
  obtain ⟨band, rfl⟩ := Option.isSome_iff_exists.mp hband
  unfold Tally.watch
  dsimp only
  rw [if_pos (.inl rfl)]
  refine ⟨h.oids, h.discovered, ?_, h.seen, fun k hk => ?_⟩
  · show t.cost.watched + per = _
    rw [h.watched, Nat.add_assoc]
  · rw [List.mem_cons, h.marked k hk]
    exact or_iff_right hk

/-- A reading that is fixed is counted once, and once as watched if it is. -/
theorem add_fixed (h : t.Counts R W n m) {oid : Octets} (hoid : hasPlaceholder oid = false)
    (hkey : normaliseOID oid ≠ []) :
    (Tally.add w t oid).Counts (insert (normaliseOID oid) R)
      (if w.threshold.isSome then insert (normaliseOID oid) W else W) n m := by
  unfold Tally.add
  dsimp only
  rw [if_neg (by simp [hoid])]
  cases hband : w.threshold with
  | none => exact h.read hkey
  | some band => exact (h.read hkey).watch hkey rfl

theorem add_template (h : t.Counts R W n m) {oid : Octets} (hoid : hasPlaceholder oid = true) :
    (Tally.add w t oid).Counts R W (n + discoverInstanceLimit w)
      (if w.threshold.isSome then m + discoverInstanceLimit w else m) := by
  have hper : (if w.discover.isSome then discoverInstanceLimit w else 0) =
      discoverInstanceLimit w := by
    unfold discoverInstanceLimit
    cases w.discover <;> rfl
  unfold Tally.add
  dsimp only
  rw [if_pos hoid, hper]
  by_cases hlimit : discoverInstanceLimit w = 0
  · rw [if_pos hlimit, hlimit]
    simpa using h
  · rw [if_neg hlimit]
    cases hband : w.threshold with
    | none => exact h.template _
    | some band => exact (h.template _).watchTemplate _ rfl

/-- Counting goes through the OIDs of a widget. -/
theorem foldl (h : t.Counts R W n m) {oids : List Octets}
    (hkeys : ∀ oid ∈ oids, hasPlaceholder oid = false → normaliseOID oid ≠ []) :
    (oids.foldl (Tally.add w) t).Counts
      (R ∪ ((oids.filter fun oid => !hasPlaceholder oid).map normaliseOID).toFinset)
      (if w.threshold.isSome then
        W ∪ ((oids.filter fun oid => !hasPlaceholder oid).map normaliseOID).toFinset else W)
      (n + discoverInstanceLimit w * (oids.filter hasPlaceholder).length)
      (if w.threshold.isSome then
        m + discoverInstanceLimit w * (oids.filter hasPlaceholder).length else m) := by
  induction oids generalizing t R W n m with
  | nil => simpa using h
  | cons oid oids ih =>
      have hrest : ∀ oid ∈ oids, hasPlaceholder oid = false → normaliseOID oid ≠ [] :=
        fun oid' hoid' => hkeys oid' (List.mem_cons_of_mem oid hoid')
      rw [List.foldl_cons]
      cases hoid : hasPlaceholder oid with
      | true =>
          have := ih (h.add_template (w := w) hoid) hrest
          rw [List.filter_cons_of_neg (by simp [hoid]), List.filter_cons_of_pos hoid,
            List.length_cons, Nat.mul_succ]
          convert this using 1
          · omega
          · split <;> omega
      | false =>
          have := ih (h.add_fixed (w := w) hoid (hkeys oid List.mem_cons_self hoid)) hrest
          rw [List.filter_cons_of_pos (by simp [hoid]), List.filter_cons_of_neg (by simp [hoid]),
            List.map_cons, List.toFinset_cons]
          convert this using 1
          · rw [Finset.union_insert, Finset.insert_union]
          · split
            · rw [Finset.union_insert, Finset.insert_union]
            · rfl

/-- **The loop of `Estimate` counts every reading once and every template for all it may
become.** -/
theorem run (h : t.Counts R W n m) {ws : List Widget}
    (hkeys : ∀ w ∈ ws, ∀ oid ∈ w.fixed, normaliseOID oid ≠ []) :
    (t.run ws).Counts (R ∪ keys ws) (W ∪ keys (watching ws)) (n + reach ws)
      (m + reach (watching ws)) := by
  induction ws generalizing t R W n m with
  | nil => simpa [Tally.run, keys, listed, watching, reach] using h
  | cons w ws ih =>
      have hw : ∀ oid ∈ w.oids, hasPlaceholder oid = false → normaliseOID oid ≠ [] :=
        fun oid hoid hp => hkeys w List.mem_cons_self oid
          (List.mem_filter.mpr ⟨hoid, by simp [hp]⟩)
      have := ih (h.foldl (w := w) hw) fun v hv => hkeys v (List.mem_cons_of_mem w hv)
      have hreach : ∀ vs, reach (w :: vs) =
          discoverInstanceLimit w * w.templates.length + reach vs := fun vs => by simp [reach]
      rw [keys_cons, hreach]
      show ((w.oids.foldl (Tally.add w) t).run ws).Counts _ _ _ _
      cases hband : w.threshold.isSome with
      | true =>
          rw [hband, if_pos rfl, if_pos rfl] at this
          have hkeep : watching (w :: ws) = w :: watching ws := List.filter_cons_of_pos hband
          rw [hkeep, keys_cons, hreach, ← Finset.union_assoc, ← Finset.union_assoc,
            ← Nat.add_assoc, ← Nat.add_assoc]
          exact this
      | false =>
          rw [hband, if_neg (by simp), if_neg (by simp)] at this
          have hskip : watching (w :: ws) = watching ws :=
            List.filter_cons_of_neg (by simp [hband])
          rw [hskip, ← Finset.union_assoc, ← Nat.add_assoc]
          exact this

end Tally.Counts

/-! ## The estimate is a bound -/

variable {ops : Floats} {p : Preset} {found : Nat → List Instance}

/-- An OID of an accepted widget can be sent as it stands. -/
theorem Widget.Valid.fixed {w : Widget} {i : Nat} (h : w.Valid ops i) {oid : Octets}
    (hoid : oid ∈ w.fixed) : OnWire oid := by
  obtain ⟨hmem, hp⟩ := List.mem_filter.mp hoid
  have hprobe := checkOIDs_eq_nil_iff.mp h.oids oid hmem
  have hnot : ¬ instancePlaceholder <:+: oid := by simpa [hasPlaceholder] using hp
  unfold instantiate at hprobe
  rwa [Substring.replaceAll_eq_self hnot] at hprobe

theorem valid_of_mem (h : validate ops p = []) {w : Widget} (hw : w ∈ p.widgets) :
    ∃ i, w.Valid ops i := by
  obtain ⟨i, hi⟩ := List.getElem?_of_mem hw
  exact ⟨i, (validate_eq_nil_iff.mp h).2.1 i w hi⟩

/-- **What the figures of an estimate are**: of an accepted preset, the readings it lists
and as many as its templates may become. -/
theorem estimate_counts (h : validate ops p = []) :
    (estimate p).oids = (keys p.widgets).card + reach p.widgets ∧
      (estimate p).discovered = reach p.widgets ∧
      (estimate p).watched = (keys (watching p.widgets)).card + reach (watching p.widgets) := by
  have hkeys : ∀ w ∈ p.widgets, ∀ oid ∈ w.fixed, normaliseOID oid ≠ [] := by
    intro w hw oid hoid
    obtain ⟨i, hvalid⟩ := valid_of_mem h hw
    exact (hvalid.fixed hoid).normaliseOID_ne_nil
  have hstart : (Tally.Counts
      { cost := { widgets := p.widgets.length, intervalSec := p.intervalSec } } ∅ ∅ 0 0) :=
    ⟨rfl, rfl, rfl, fun _ _ => by simp, fun _ _ => by simp⟩
  have hrun := hstart.run hkeys
  simp only [Finset.empty_union, Nat.zero_add] at hrun
  unfold estimate
  dsimp only
  split
  · exact ⟨hrun.oids, hrun.discovered, hrun.watched⟩
  · exact ⟨hrun.oids, hrun.discovered, hrun.watched⟩

/-- What templates became, with the keys it has. -/
def madeKeys (ws : List (Widget × Nat)) (found : Nat → List Instance) : List Octets :=
  ws.flatMap fun (w, i) => (made w (found i)).map fun e => normaliseOID e.1

theorem length_madeKeys (ws : List (Widget × Nat)) :
    (madeKeys ws found).length ≤ reach (ws.map Prod.fst) := by
  induction ws with
  | nil => simp [madeKeys]
  | cons x ws ih =>
      obtain ⟨w, i⟩ := x
      have hmin := Nat.mul_le_mul_right w.templates.length
        (Nat.min_le_left (discoverInstanceLimit w) (found i).length)
      have hhead : (madeKeys ((w, i) :: ws) found).length =
          (made w (found i)).length + (madeKeys ws found).length := by
        simp [madeKeys]
      have htail : reach (((w, i) :: ws).map Prod.fst) =
          discoverInstanceLimit w * w.templates.length + reach (ws.map Prod.fst) := by
        simp [reach]
      rw [hhead, htail, length_made]
      omega

/-- **After a walk there are no readings but those that were listed and those the templates
became.** -/
theorem keys_expanded {ws : List (Widget × Nat)} :
    keys (ws.map fun (w, i) => expandWidget w (found i)) ⊆
      keys (ws.map Prod.fst) ∪ (madeKeys ws found).toFinset := by
  intro key hkey
  obtain ⟨v, hv, oid, hoid, rfl⟩ := mem_keys.mp hkey
  obtain ⟨⟨w, i⟩, hw, rfl⟩ := List.mem_map.mp hv
  have hlisted : ∀ oid ∈ w.fixed, normaliseOID oid ∈ keys (ws.map Prod.fst) := fun oid hoid =>
    mem_keys.mpr ⟨w, List.mem_map.mpr ⟨(w, i), hw, rfl⟩, oid, hoid, rfl⟩
  rw [Finset.mem_union]
  cases hdiscover : w.discover with
  | none =>
      dsimp only at hoid
      rw [expandWidget_none hdiscover] at hoid
      exact .inl (hlisted oid hoid)
  | some d =>
      have hmem := (List.mem_filter.mp hoid).1
      dsimp only at hmem
      rw [expandWidget_oids (by simp [hdiscover])] at hmem
      rcases List.mem_append.mp hmem with hmade | hfixed
      · obtain ⟨e, he, rfl⟩ := List.mem_map.mp hmade
        refine .inr (List.mem_toFinset.mpr (List.mem_flatMap.mpr ⟨(w, i), hw, ?_⟩))
        exact List.mem_map.mpr ⟨e, he, rfl⟩
      · exact .inl (hlisted oid hfixed)

theorem card_keys_expanded (ws : List (Widget × Nat)) :
    (keys (ws.map fun (w, i) => expandWidget w (found i))).card ≤
      (keys (ws.map Prod.fst)).card + reach (ws.map Prod.fst) := by
  have hsub := Finset.card_le_card (@keys_expanded found ws)
  have hunion := Finset.card_union_le (keys (ws.map Prod.fst)) (madeKeys ws found).toFinset
  have hmade := (madeKeys ws found).toFinset_card_le
  have hlength := @length_madeKeys found ws
  omega

/-- What a widget holds after a walk is within what it was counted for and within its
kind. -/
theorem Widget.Valid.expanded {w : Widget} {i : Nat} (h : w.Valid ops i) (is : List Instance) :
    (expandWidget w is).oids.length ≤ counted w ∧
      ∃ maxOIDs, widgetDoc w.kind = some maxOIDs ∧ (expandWidget w is).oids.length ≤ maxOIDs := by
  obtain ⟨_, maxOIDs, hkind, hfits⟩ := checkKind_eq_nil_iff.mp h.kind
  cases hdiscover : w.discover with
  | none =>
      rw [expandWidget_none hdiscover]
      exact ⟨by simp [counted, hdiscover], maxOIDs, hkind, hfits⟩
  | some d =>
      have hsome : w.discover.isSome = true := by simp [hdiscover]
      have hdisc := checkDiscovery_eq_nil_iff.mp h.discovery
      rw [hdiscover] at hdisc
      have htemplates : w.templates.length ≠ 0 := by simpa using hdisc.2.1
      have hlimit := pos_limit hkind hfits hsome htemplates
      have hroom := instancesTaken_fit hkind hfits
      have htaken := Nat.mul_le_mul_right w.templates.length
        (Nat.min_le_left (discoverInstanceLimit w) is.length)
      rw [length_expandWidget hsome]
      refine ⟨?_, maxOIDs, hkind, by omega⟩
      -- there is room for one instance at least, so what is fixed is counted too
      have hfixed := Nat.le_mul_of_pos_right w.fixed.length hlimit
      unfold counted
      rw [if_pos hsome, ← w.length_fixed, Nat.add_mul, Nat.mul_comm w.templates.length]
      omega

theorem length_flatMap_le {α β : Type} {xs : List α} {f : α → List β} {g : α → Nat}
    (h : ∀ x ∈ xs, (f x).length ≤ g x) : (xs.flatMap f).length ≤ (xs.map g).sum := by
  induction xs with
  | nil => simp
  | cons x xs ih =>
      have hx := h x List.mem_cons_self
      have hxs := ih fun y hy => h y (List.mem_cons_of_mem x hy)
      rw [List.flatMap_cons, List.length_append, List.map_cons, List.sum_cons]
      omega

theorem watching_expanded (ws : List (Widget × Nat)) :
    watching (ws.map fun (w, i) => expandWidget w (found i)) =
      (ws.filter fun x => x.1.threshold.isSome).map fun (w, i) => expandWidget w (found i) := by
  unfold watching
  rw [List.filter_map]
  congr 1
  refine List.filter_congr fun x _ => ?_
  simp

theorem watching_fst (ws : List (Widget × Nat)) :
    (ws.filter fun x => x.1.threshold.isSome).map Prod.fst = watching (ws.map Prod.fst) := by
  unfold watching
  rw [List.filter_map]
  rfl

/--
**The advertised cost of a preset is a bound.**

Whatever the walks of its discovering widgets find, an accepted preset polls no more
readings than its estimate says and than a preset may, watches no more of them than the
estimate says, and every widget of it holds no more than its kind can show.
-/
theorem cost_bounds (h : validate ops p = []) (found : Nat → List Instance) :
    (pollOIDs (expand p found)).length ≤ (estimate p).oids ∧
      (pollOIDs (expand p found)).length ≤ maxOIDsPerPreset ∧
      (thresholdsFor (expand p found)).length ≤ (estimate p).watched ∧
      ∀ w ∈ (expand p found).widgets,
        ∃ maxOIDs, widgetDoc w.kind = some maxOIDs ∧ w.oids.length ≤ maxOIDs := by
  obtain ⟨hoids, _, hwatched⟩ := estimate_counts h
  have hvalid := (validate_eq_nil_iff.mp h).2.1
  have hfst : p.widgets.zipIdx.map Prod.fst = p.widgets := List.zipIdx_map_fst 0 p.widgets
  have hwidgets : ∀ x ∈ p.widgets.zipIdx, x.1.Valid ops x.2 := fun x hx =>
    hvalid x.2 x.1 (List.mem_zipIdx_iff_getElem?.mp hx)
  refine ⟨?_, ?_, ?_, ?_⟩
  · rw [(pollOIDs_listing _).length, hoids]
    have := @card_keys_expanded found p.widgets.zipIdx
    rwa [hfst] at this
  · have htotal := (validate_eq_nil_iff.mp h).2.2.2.2
    rw [(pollOIDs_listing _).length]
    have hlisted : (listed (expand p found).widgets).length ≤
        (p.widgets.zipIdx.map fun x => counted x.1).sum := by
      show (List.flatMap _ (List.map _ _)).length ≤ _
      rw [List.flatMap_map]
      refine length_flatMap_le fun x hx => ?_
      have hexpanded := ((hwidgets x hx).expanded (found x.2)).1
      have hfixed := (expandWidget x.1 (found x.2)).length_fixed
      rw [List.length_map]
      show (expandWidget x.1 (found x.2)).fixed.length ≤ _
      omega
    have hcounted : (p.widgets.zipIdx.map fun x => counted x.1) = p.widgets.map counted := by
      rw [← hfst, List.map_map, List.zipIdx_map_fst]
      rfl
    have hcard := (listed (expand p found).widgets).toFinset_card_le
    rw [hcounted] at hlisted
    exact hcard.trans (hlisted.trans htotal)
  · have hlisting := (thresholdsFor_listing (expand p found)).length
    rw [List.length_map] at hlisting
    have := @card_keys_expanded found
      (p.widgets.zipIdx.filter fun x => x.1.threshold.isSome)
    rw [watching_fst, hfst, ← watching_expanded] at this
    rw [hlisting, hwatched]
    exact this
  · intro v hv
    obtain ⟨x, hx, rfl⟩ := List.mem_map.mp hv
    obtain ⟨_, maxOIDs, hkind, hfits⟩ := (hwidgets x hx).expanded (found x.2)
    exact ⟨maxOIDs, by simpa using hkind, hfits⟩

/-- Numbers that no example prints or adds. -/
def plain : Floats where
  add x _ := x
  trimFloat _ := []

/-- A wall of ports under a band, and one port on its own under another. -/
def ports (alone : Octets) (max : Float64) : Preset where
  formatVersion := 1
  name := octets "Ports"
  intervalSec := 60
  widgets :=
    [{ kind := kindGrid, title := octets "Ports"
       oids := [octets "1.3.6.1.2.1.2.2.1.8.\x7b#\x7d"]
       labels := [(octets "1", octets "up")]
       discover := some { walk := octets "1.3.6.1.2.1.2.2.1.2" }
       threshold := some { max := some ⟨0x3ff0000000000000⟩ } },
     { kind := kindStatus, title := octets "Uplink", oids := [alone]
       threshold := some { max := some max } }]

/-- A walk that finds two ports. -/
def twoPorts : Nat → List Instance
  | 0 => [⟨octets "1", octets "Gi0/1"⟩, ⟨octets "2", octets "Gi0/2"⟩]
  | _ => []

theorem cost_bounds_ports :
    let p := ports (octets ".1.3.6.1.2.1.2.2.1.8.1") ⟨0x3ff0000000000000⟩
    (pollOIDs (expand p twoPorts)).length ≤ (estimate p).oids ∧
      (pollOIDs (expand p twoPorts)).length ≤ maxOIDsPerPreset ∧
      (thresholdsFor (expand p twoPorts)).length ≤ (estimate p).watched ∧
      ∀ w ∈ (expand p twoPorts).widgets,
        ∃ maxOIDs, widgetDoc w.kind = some maxOIDs ∧ w.oids.length ≤ maxOIDs :=
  @cost_bounds plain _ (by decide +kernel) twoPorts

end SnmpLens.Presets
