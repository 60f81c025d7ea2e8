import SnmpLens.Presets.Expanded

/-!
# Which object a reading is

`PollOIDs` and `ThresholdsFor` know a reading by the text of its OID, less a dot in front. On
the wire it is the object its arcs name, and `checkOID` reads an arc as a number: `03` is three.
So an object that a preset spells in two ways is polled twice, and two bands on it are not seen
to conflict. Where it is spelled in one way, every object is polled once, under the strictest
band that is asked of it (`one_object_iff`).
-/

namespace SnmpLens.Presets

open Utf8 Strings Events

/-- The object an OID names: its arcs. -/
def objectOf (oid : Octets) : Option (List Nat) :=
  ((trimPrefix 46 oid).splitOn 46).mapM (parseUint 64)

/-- A value is not inside a band. -/
def Threshold.Outside (t : Threshold) (v : Float64) : Prop :=
  (∃ bound, t.min = some bound ∧ v.lt bound = true) ∨ ∃ bound, t.max = some bound ∧ bound.lt v = true

/-- A band that lets nothing pass another one does not. -/
structure Threshold.AsStrict (t u : Threshold) : Prop where
  outside : ∀ v, u.Outside v → t.Outside v
  hold : t.forSeconds ≤ u.forSeconds
  alerts : u.alerts = true → t.alerts = true

/-- A widget of the preset asks for a band on an object. -/
def Asks (p : Preset) (object : Option (List Nat)) (band : Threshold) : Prop :=
  ∃ w ∈ p.widgets, w.threshold = some band ∧ ∃ oid ∈ w.fixed, objectOf oid = object

/-- The band of a reading. -/
def bandOf (p : Preset) (key : Octets) : Option Threshold := (thresholdsFor p).lookup key

/-- A band is the strictest of those asked for, or none is. -/
def Strictest (p : Preset) (object : Option (List Nat)) (band : Option Threshold) : Prop :=
  match band with
  | none => ∀ u, ¬ Asks p object u
  | some t => Asks p object t ∧ ∀ u, Asks p object u → t.AsStrict u

/-- **Every object is polled once, under the strictest band that is asked of it**, in whatever
order the widgets stand. -/
structure OneObject (p : Preset) : Prop where
  once : ((pollOIDs p).map objectOf).Nodup
  named : ∀ w ∈ p.widgets, ∀ oid ∈ w.fixed, ∃ key ∈ pollOIDs p, objectOf key = objectOf oid
  perm : ∀ q : Preset, q.widgets.Perm p.widgets → (pollOIDs q).Perm (pollOIDs p)
  band : ∀ q : Preset, q.widgets.Perm p.widgets → ∀ key ∈ pollOIDs p,
    Strictest p (objectOf key) (bandOf q key)

/-- Two OIDs with the same arcs are the same text, but for a dot in front. -/
def OneSpelling (p : Preset) : Prop :=
  ∀ w ∈ p.widgets, ∀ w' ∈ p.widgets, ∀ oid ∈ w.fixed, ∀ oid' ∈ w'.fixed,
    objectOf oid = objectOf oid' → normaliseOID oid = normaliseOID oid'

variable {ops : Floats} {p q : Preset}

/-! ## Bands -/

theorem lt_congr_left {a b v : Float64} (h : a.eq b = true) : a.lt v = b.lt v := by
  simp only [Float64.eq, Bool.and_eq_true, Bool.not_eq_true', beq_iff_eq] at h
  simp only [Float64.lt, h.1.1, h.1.2, h.2]

theorem lt_congr_right {a b v : Float64} (h : a.eq b = true) : v.lt a = v.lt b := by
  simp only [Float64.eq, Bool.and_eq_true, Bool.not_eq_true', beq_iff_eq] at h
  simp only [Float64.lt, h.1.1, h.1.2, h.2]

theorem sameBound_some {a b : Option Float64} {y : Float64} (h : sameBound a b = true)
    (hb : b = some y) : ∃ x, a = some x ∧ x.eq y = true := by
  subst hb
  cases a with
  | none => cases h
  | some x => exact ⟨x, rfl, h⟩

theorem Threshold.AsStrict.refl (t : Threshold) : t.AsStrict t := ⟨fun _ h => h, le_refl _, id⟩

theorem Threshold.asStrict_of_equal {t u : Threshold} (h : t.equal u = true) : t.AsStrict u := by
  simp only [Threshold.equal, Bool.and_eq_true, beq_iff_eq] at h
  obtain ⟨⟨⟨hmin, hmax⟩, hhold⟩, halerts⟩ := h
  refine ⟨fun v hv => ?_, hhold.le, fun hu => halerts.trans hu⟩
  rcases hv with ⟨bound, hbound, hlt⟩ | ⟨bound, hbound, hlt⟩
  · obtain ⟨x, hx, heq⟩ := sameBound_some hmin hbound
    exact .inl ⟨x, hx, (lt_congr_right heq).trans hlt⟩
  · obtain ⟨x, hx, heq⟩ := sameBound_some hmax hbound
    exact .inr ⟨x, hx, (lt_congr_left heq).trans hlt⟩

variable {key : Octets}

theorem mem_claims {band : Threshold} :
    (∃ i, (⟨i, key, band⟩ : Claim) ∈ claims p.widgets) ↔
      ∃ w ∈ p.widgets, w.threshold = some band ∧ ∃ oid ∈ w.fixed, normaliseOID oid = key := by
  unfold claims
  constructor
  · rintro ⟨i, hmem⟩
    obtain ⟨⟨w, j⟩, hw, hclaim⟩ := List.mem_flatMap.mp hmem
    refine ⟨w, (List.mem_of_getElem? (List.mem_zipIdx_iff_getElem?.mp hw)), ?_⟩
    dsimp only [claimsOf] at hclaim
    cases hband : w.threshold with
    | none => simp [hband] at hclaim
    | some t =>
        rw [hband] at hclaim
        obtain ⟨oid, hoid, heq⟩ := List.mem_map.mp hclaim
        injection heq with _ hkey ht
        exact ⟨congrArg some ht, oid, hoid, hkey⟩
  · rintro ⟨w, hw, hband, oid, hoid, rfl⟩
    obtain ⟨i, hi⟩ := List.getElem?_of_mem hw
    refine ⟨i, List.mem_flatMap.mpr ⟨(w, i), List.mem_zipIdx_iff_getElem?.mpr hi, ?_⟩⟩
    show _ ∈ claimsOf i w
    unfold claimsOf
    rw [hband]
    exact List.mem_map.mpr ⟨oid, hoid, rfl⟩

/-- In an accepted preset two bands on one reading are as strict as each other. -/
theorem asStrict_of_valid (h : validate ops p = []) {t u : Threshold}
    (ht : ∃ w ∈ p.widgets, w.threshold = some t ∧ ∃ oid ∈ w.fixed, normaliseOID oid = key)
    (hu : ∃ w ∈ p.widgets, w.threshold = some u ∧ ∃ oid ∈ w.fixed, normaliseOID oid = key) :
    t.AsStrict u := by
  have hagree := checkThresholdConflicts_eq_nil_iff.mp (validate_eq_nil_iff.mp h).2.2.2.1
  obtain ⟨i, hi⟩ := mem_claims.mpr ht
  obtain ⟨j, hj⟩ := mem_claims.mpr hu
  by_cases hsame : (⟨i, key, t⟩ : Claim) = ⟨j, key, u⟩
  · injection hsame with _ _ htu
    rw [htu]
    exact .refl u
  · have hpair : (⟨i, key, t⟩ : Claim).Same ⟨j, key, u⟩ := List.Pairwise.forall hagree hi hj hsame
    exact Threshold.asStrict_of_equal (hpair rfl)

/-- A band that is kept for a reading is one a widget asks for on it. -/
theorem asked_of_mem {t : Threshold} (h : (key, t) ∈ thresholdsFor p) :
    ∃ w ∈ p.widgets, w.threshold = some t ∧ ∃ oid ∈ w.fixed, normaliseOID oid = key := by
  have hoids : ∀ (band : Threshold) (oids : List Octets) (m : List (Octets × Threshold)),
      (key, t) ∈ oids.foldl (fun m oid => put m (normaliseOID oid) band) m →
        (key, t) ∈ m ∨ t = band ∧ ∃ oid ∈ oids, normaliseOID oid = key := by
    intro band oids
    induction oids with
    | nil => exact fun m hm => .inl hm
    | cons oid oids ih =>
        intro m hm
        rcases ih _ hm with hm | ⟨hband, oid', hoid', hkey⟩
        · rcases mem_put hm with hm | heq
          · exact .inl hm
          · obtain ⟨hkey, hband⟩ := Prod.mk.inj heq
            exact .inr ⟨hband, oid, List.mem_cons_self, hkey.symm⟩
        · exact .inr ⟨hband, oid', List.mem_cons_of_mem _ hoid', hkey⟩
  have hrun : ∀ (ws : List Widget) (m : List (Octets × Threshold)),
      (key, t) ∈ ws.foldl (fun out w =>
        match w.threshold with
        | none => out
        | some band => w.oids.foldl (fun out oid =>
            if hasPlaceholder oid then out else put out (normaliseOID oid) band) out) m →
        (key, t) ∈ m ∨
          ∃ w ∈ ws, w.threshold = some t ∧ ∃ oid ∈ w.fixed, normaliseOID oid = key := by
    intro ws
    induction ws with
    | nil => exact fun m hm => .inl hm
    | cons w ws ih =>
        intro m hm
        rw [List.foldl_cons] at hm
        rcases ih _ hm with hm | ⟨w', hw', hrest⟩
        · cases hband : w.threshold with
          | none =>
              rw [hband] at hm
              exact .inl hm
          | some band =>
              rw [hband] at hm
              dsimp only at hm
              rw [foldl_fixed] at hm
              rcases hoids band w.fixed m hm with hm | ⟨rfl, hoid⟩
              · exact .inl hm
              · exact .inr ⟨w, List.mem_cons_self, hband, hoid⟩
        · exact .inr ⟨w', List.mem_cons_of_mem _ hw', hrest⟩
  rcases hrun p.widgets [] h with hnil | hasked
  · exact absurd hnil List.not_mem_nil
  · exact hasked

theorem bandOf_some {t : Threshold} (h : bandOf p key = some t) :
    ∃ w ∈ p.widgets, w.threshold = some t ∧ ∃ oid ∈ w.fixed, normaliseOID oid = key := by
  obtain ⟨front, behind, hsplit, _⟩ := List.lookup_eq_some_iff.mp h
  refine asked_of_mem ?_
  rw [hsplit]
  exact List.mem_append_right _ List.mem_cons_self

theorem bandOf_none (h : bandOf p key = none) :
    ∀ w ∈ p.widgets, ∀ u, w.threshold = some u → ∀ oid ∈ w.fixed, normaliseOID oid ≠ key := by
  intro w hw u hu oid hoid hkey
  have hmem : key ∈ (thresholdsFor p).map Prod.fst := by
    rw [← List.mem_toFinset, (thresholdsFor_listing p).toFinset, mem_keys]
    exact ⟨w, List.mem_filter.mpr ⟨hw, by rw [hu]; rfl⟩, oid, hoid, hkey⟩
  obtain ⟨e, he, hfst⟩ := List.mem_map.mp hmem
  exact absurd hfst.symm (by simpa using List.lookup_eq_none_iff.mp h e he)

/-! ## Readings -/

/-- What is left of an accepted OID has no second dot in front. -/
theorem OnWire.trim {oid : Octets} (h : OnWire oid) :
    trimPrefix 46 (normaliseOID oid) = normaliseOID oid := by
  have hshape := h.shape
  unfold numericOID at hshape
  simp only [Bool.and_eq_true, List.all_eq_true, decide_eq_true_eq] at hshape
  unfold normaliseOID
  cases hs : trimPrefix 46 oid with
  | nil => rfl
  | cons b rest =>
      by_cases hb : b = 46
      · have hempty : [] ∈ (trimPrefix 46 oid).splitOn 46 := by
          rw [hs, hb, List.splitOn_cons_eq_if_modifyHead]
          exact List.mem_cons_self
        exact absurd rfl (hshape.2 [] hempty).1
      · exact if_neg hb

theorem objectOf_normaliseOID {oid : Octets} (h : OnWire oid) :
    objectOf (normaliseOID oid) = objectOf oid := by
  unfold objectOf
  rw [h.trim]
  rfl

theorem onWire_of_valid (h : validate ops p = []) {w : Widget} (hw : w ∈ p.widgets) {oid : Octets}
    (hoid : oid ∈ w.fixed) : OnWire oid := by
  obtain ⟨i, hi⟩ := List.getElem?_of_mem hw
  exact ((validate_eq_nil_iff.mp h).2.1 i w hi).fixed hoid

theorem mem_pollOIDs :
    key ∈ pollOIDs p ↔ ∃ w ∈ p.widgets, ∃ oid ∈ w.fixed, normaliseOID oid = key := by
  rw [← List.mem_toFinset, (pollOIDs_listing p).toFinset, mem_keys]

theorem pollOIDs_perm (hperm : q.widgets.Perm p.widgets) : (pollOIDs q).Perm (pollOIDs p) := by
  refine (List.perm_ext_iff_of_nodup (pollOIDs_listing q).nodup (pollOIDs_listing p).nodup).mpr ?_
  intro key
  rw [mem_pollOIDs, mem_pollOIDs]
  simp only [hperm.mem_iff]

/-- Where an object has one spelling, the bands asked of it are those asked of its reading. -/
theorem OneSpelling.asks (hone : OneSpelling p) (h : validate ops p = []) (hkey : key ∈ pollOIDs p)
    {t : Threshold} (hasks : Asks p (objectOf key) t) :
    ∃ w ∈ p.widgets, w.threshold = some t ∧ ∃ oid ∈ w.fixed, normaliseOID oid = key := by
  obtain ⟨w, hw, ht, oid, hoid, hobject⟩ := hasks
  obtain ⟨w', hw', oid', hoid', rfl⟩ := mem_pollOIDs.mp hkey
  rw [objectOf_normaliseOID (onWire_of_valid h hw' hoid')] at hobject
  exact ⟨w, hw, ht, oid, hoid, hone w hw w' hw' oid hoid oid' hoid' hobject⟩

/-- The band of a reading is the strictest one, whatever the order. -/
theorem OneSpelling.strictest (hone : OneSpelling p) (h : validate ops p = [])
    (hperm : q.widgets.Perm p.widgets) (hkey : key ∈ pollOIDs p) :
    Strictest p (objectOf key) (bandOf q key) := by
  cases hband : bandOf q key with
  | none =>
      intro u hasks
      obtain ⟨w, hw, hu, oid, hoid, hsame⟩ := hone.asks h hkey hasks
      exact bandOf_none hband w (hperm.mem_iff.mpr hw) u hu oid hoid hsame
  | some t =>
      obtain ⟨w, hw, ht, oid, hoid, rfl⟩ := bandOf_some hband
      rw [hperm.mem_iff] at hw
      refine ⟨⟨w, hw, ht, oid, hoid, (objectOf_normaliseOID (onWire_of_valid h hw hoid)).symm⟩, ?_⟩
      intro u hasks
      exact asStrict_of_valid h ⟨w, hw, ht, oid, hoid, rfl⟩ (hone.asks h hkey hasks)

/-- **Every object of an accepted preset is polled once, under the strictest band that is asked of
it, exactly where the preset spells it in one way.** -/
theorem one_object_iff (h : validate ops p = []) : OneObject p ↔ OneSpelling p := by
  constructor
  · intro hobject w hw w' hw' oid hoid oid' hoid' hsame
    refine List.inj_on_of_nodup_map hobject.once (mem_pollOIDs.mpr ⟨w, hw, oid, hoid, rfl⟩)
      (mem_pollOIDs.mpr ⟨w', hw', oid', hoid', rfl⟩) ?_
    rw [objectOf_normaliseOID (onWire_of_valid h hw hoid),
      objectOf_normaliseOID (onWire_of_valid h hw' hoid'), hsame]
  · intro hone
    refine ⟨(pollOIDs_listing p).nodup.map_on ?_, ?_, fun q hperm => pollOIDs_perm hperm,
      fun q hperm key hkey => hone.strictest h hperm hkey⟩
    · intro key hkey key' hkey' hsame
      obtain ⟨w, hw, oid, hoid, rfl⟩ := mem_pollOIDs.mp hkey
      obtain ⟨w', hw', oid', hoid', rfl⟩ := mem_pollOIDs.mp hkey'
      rw [objectOf_normaliseOID (onWire_of_valid h hw hoid),
        objectOf_normaliseOID (onWire_of_valid h hw' hoid')] at hsame
      exact hone w hw w' hw' oid hoid oid' hoid' hsame
    · intro w hw oid hoid
      exact ⟨normaliseOID oid, mem_pollOIDs.mpr ⟨w, hw, oid, hoid, rfl⟩,
        objectOf_normaliseOID (onWire_of_valid h hw hoid)⟩

/-- One reading on two tiles, the second spelling it its own way and under its own band. -/
def twice (again : Octets) (max : Float64) : Preset where
  formatVersion := 1
  name := octets "Twice"
  intervalSec := 60
  widgets :=
    [{ kind := kindStatus, title := octets "Up", oids := [octets "1.3.6.1.2.1.2.2.1.8.1"]
       threshold := some { max := some ⟨0x3ff0000000000000⟩ } },
     { kind := kindStatus, title := octets "Up", oids := [again]
       threshold := some { max := some max } }]

instance : Decidable (OneSpelling p) :=
  inferInstanceAs (Decidable (∀ w ∈ p.widgets, ∀ w' ∈ p.widgets, ∀ oid ∈ w.fixed, ∀ oid' ∈ w'.fixed,
    objectOf oid = objectOf oid' → normaliseOID oid = normaliseOID oid'))

/-- A dot in front is no other spelling. -/
theorem one_object_twice :
    OneObject (twice (octets ".1.3.6.1.2.1.2.2.1.8.1") ⟨0x3ff0000000000000⟩) :=
  (@one_object_iff plain _ (by decide +kernel)).mpr (by decide +kernel)

/-- `08` is eight, so one object is polled twice, under two bands. -/
theorem two_spellings_polled_twice :
    let p := twice (octets "1.3.6.1.2.1.2.2.1.08.1") ⟨0x4000000000000000⟩
    validate plain p = [] ∧ (pollOIDs p).length = 2 ∧ ¬ OneObject p := by
  refine ⟨by decide +kernel, by decide +kernel, fun h => ?_⟩
  exact absurd h.once (by decide +kernel)

end SnmpLens.Presets
