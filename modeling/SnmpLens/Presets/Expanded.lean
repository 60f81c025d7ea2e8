import Mathlib.Algebra.Order.BigOperators.Group.List
import SnmpLens.Presets.Cost

/-!
# A preset once it is expanded

Binding a preset walks the device, puts the instances that were found in the place of its
templates, and validates it again. `validate_expand_iff` says when the second validation
has nothing to object to: the OIDs the templates become can be sent, no two bands differ on
one reading, and no shape of a drawing is bound to a template, which expansion leaves as it
is while the widget gives the template up.
-/

namespace SnmpLens.Presets

open Utf8 Strings Events

variable {ops : Floats} {p : Preset} {w : Widget} {found : Nat → List Instance}

/-- The templates of a widget, with the instances it takes in their place, can be sent. -/
def Widget.Sendable (w : Widget) (is : List Instance) : Prop :=
  ∀ i ∈ is.take (discoverInstanceLimit w), ∀ tmpl ∈ w.templates, OnWire (instantiate i.suffix tmpl)

/-- No shape of a widget's drawing is bound to a template. -/
def Widget.Unbound (w : Widget) : Prop :=
  ∀ m ∈ w.map, ∀ s ∈ m.shapes, hasPlaceholder s.oid = false

/-- The walk of every widget that discovers finds an instance. -/
def Finds (found : Nat → List Instance) (p : Preset) : Prop :=
  ∀ i (w : Widget), p.widgets[i]? = some w → w.discover.isSome = true → found i ≠ []

/-! ## One widget -/

/-- The leading dot makes no difference to whether something is a template. -/
theorem hasPlaceholder_normaliseOID (oid : Octets) :
    hasPlaceholder (normaliseOID oid) = hasPlaceholder oid := by
  unfold hasPlaceholder normaliseOID
  cases oid with
  | nil => rfl
  | cons a rest =>
      by_cases ha : a = 46
      · have hhead : instancePlaceholder.head? ≠ some a := by
          rw [ha]
          decide
        simp only [trimPrefix, if_pos ha, Substring.infix_cons_of_head hhead]
      · simp only [trimPrefix, if_neg ha]

theorem instantiate_of_not_template {oid suffix : Octets} (h : hasPlaceholder oid = false) :
    instantiate suffix oid = oid :=
  Substring.replaceAll_eq_self (of_decide_eq_false h)

/-- **What a widget reads is checked as it stands once it is no template.** -/
theorem checked_plain_iff {oids : List Octets} :
    ((∀ oid ∈ oids, OnWire (instantiate (octets "1") oid)) ∧ oids.filter hasPlaceholder = []) ↔
      ∀ oid ∈ oids, OnWire oid := by
  constructor
  · rintro ⟨hwire, hplain⟩ oid hoid
    have hnot : hasPlaceholder oid = false := by
      simpa using List.filter_eq_nil_iff.mp hplain oid hoid
    have := hwire oid hoid
    rwa [instantiate_of_not_template hnot] at this
  · intro h
    refine ⟨fun oid hoid => ?_, List.filter_eq_nil_iff.mpr fun oid hoid => ?_⟩
    · rw [instantiate_of_not_template (h oid hoid).hasPlaceholder]
      exact h oid hoid
    · rw [(h oid hoid).hasPlaceholder]
      simp

theorem checkBinding_eq_nil_iff {at_ oid : Octets} {known : List Octets} :
    checkBinding at_ oid known = [] ↔
      (oid ≠ [] → OnWire (instantiate (octets "1") oid) ∧ normaliseOID oid ∈ known) := by
  unfold checkBinding
  by_cases hoid : oid = []
  · simp [hoid]
  · rw [if_neg hoid]
    dsimp only
    by_cases hwire : OnWire (instantiate (octets "1") oid)
    · have hnil := (@checkOID_eq_nil_iff (at_ ++ octets ".oid") _).mpr hwire
      rw [if_neg (by simp [hnil])]
      by_cases hknown : normaliseOID oid ∈ known
      · simp [hknown, hwire]
      · simp [hknown, hoid]
    · have hnil : checkOID (at_ ++ octets ".oid") (instantiate (octets "1") oid) ≠ [] :=
        fun h => hwire (checkOID_eq_nil_iff.mp h)
      rw [if_pos hnil]
      simp [hnil, hoid, hwire]

theorem checkShape_eq_nil_iff {at_ : Octets} {s : Shape} {known : List Octets} :
    checkShape ops at_ s known = [] ↔
      checkShape ops at_ { s with oid := [] } [] = [] ∧ checkBinding at_ s.oid known = [] := by
  have hextent : checkExtent ops at_ { s with oid := [] } = checkExtent ops at_ s := rfl
  have hbinding : checkBinding at_ [] [] = [] := rfl
  unfold checkShape
  rw [hextent]
  simp only [List.append_eq_nil_iff, hbinding, and_true]

/-- The drawing of a map widget is accepted again when what it is bound to is still read. -/
theorem checkMap_expanded {i : Nat} {oids : List Octets} (h : checkMap ops (widgetAt i) w = []) :
    checkMap ops (widgetAt i) { w with oids := oids } = [] ↔
      ∀ m ∈ w.map, ∀ s ∈ m.shapes, s.oid ≠ [] → normaliseOID s.oid ∈ oids.map normaliseOID := by
  unfold checkMap at h ⊢
  dsimp only at h ⊢
  cases hmap : w.map with
  | none =>
      rw [hmap] at h
      simpa using h
  | some m =>
      rw [hmap] at h
      by_cases hkind : w.kind ≠ kindMap
      · rw [if_pos hkind] at h
        cases h
      · rw [if_neg hkind] at h ⊢
        dsimp only at h ⊢
        rw [List.append_eq_nil_iff, zipIdx_flatMap_eq_nil_iff] at h ⊢
        obtain ⟨hdrawing, hshapes⟩ := h
        constructor
        · rintro ⟨_, hafter⟩ m' hm' s hs hoid
          obtain rfl := Option.some.inj hm'
          obtain ⟨j, hj⟩ := List.getElem?_of_mem hs
          have := (checkShape_eq_nil_iff.mp (hafter j s hj)).2
          exact (checkBinding_eq_nil_iff.mp this hoid).2
        · intro hafter
          refine ⟨hdrawing, fun j s hj => ?_⟩
          obtain ⟨hshape, hbinding⟩ := checkShape_eq_nil_iff.mp (hshapes j s hj)
          refine checkShape_eq_nil_iff.mpr ⟨hshape, checkBinding_eq_nil_iff.mpr fun hoid => ?_⟩
          exact ⟨(checkBinding_eq_nil_iff.mp hbinding hoid).1,
            hafter m rfl s (List.mem_of_getElem? hj) hoid⟩

/-- A drawing is checked against the kind of its widget and the readings it has. -/
theorem checkMap_congr {at_ : Octets} {v : Widget} (hkind : v.kind = w.kind) (hmap : v.map = w.map)
    (hoids : v.oids = w.oids) : checkMap ops at_ v = checkMap ops at_ w := by
  unfold checkMap
  rw [hkind, hmap, hoids]

variable {is : List Instance}

/-- An accepted widget that discovers has readings for every instance it takes. -/
theorem Widget.Valid.expanded_ne_nil {i : Nat} (h : w.Valid ops i)
    (hdiscover : w.discover.isSome = true) (his : is ≠ []) :
    (expandWidget w is).oids ≠ [] := by
  obtain ⟨_, maxOIDs, hkind, hfits⟩ := checkKind_eq_nil_iff.mp h.kind
  have hdisc := checkDiscovery_eq_nil_iff.mp h.discovery
  obtain ⟨d, hd⟩ := Option.isSome_iff_exists.mp hdiscover
  rw [hd] at hdisc
  have htemplates : w.templates.length ≠ 0 := by simpa using hdisc.2.1
  have hlimit := pos_limit hkind hfits hdiscover htemplates
  have his' : 0 < is.length := List.length_pos_iff.mpr his
  have hpos : 0 < min (discoverInstanceLimit w) is.length * w.templates.length :=
    Nat.mul_pos (Nat.lt_min.mpr ⟨hlimit, his'⟩) (Nat.pos_of_ne_zero htemplates)
  have hlength := @length_expandWidget _ is hdiscover
  intro hnil
  rw [hnil, List.length_nil] at hlength
  omega

/-- What a widget reads after the walk can be sent when its templates have become what can. -/
theorem onWire_expanded_iff {i : Nat} (h : w.Valid ops i) (hdiscover : w.discover.isSome = true) :
    (∀ oid ∈ (expandWidget w is).oids, OnWire oid) ↔ w.Sendable is := by
  rw [expandWidget_oids hdiscover]
  constructor
  · intro hwire inst hinst tmpl htmpl
    refine hwire _ (List.mem_append_left _ (List.mem_map.mpr ⟨(_, inst.label), ?_, rfl⟩))
    exact mem_made.mpr ⟨inst, hinst, tmpl, htmpl, rfl⟩
  · intro hsend oid hoid
    rcases List.mem_append.mp hoid with hoid | hoid
    · obtain ⟨e, he, rfl⟩ := List.mem_map.mp hoid
      obtain ⟨inst, hinst, tmpl, htmpl, rfl⟩ := mem_made.mp he
      exact hsend inst hinst tmpl htmpl
    · exact h.fixed hoid

/-- **What a reading a shape is bound to comes to**: it is still read exactly where it was
no template. -/
theorem bound_expanded_iff (hdiscover : w.discover.isSome = true)
    (hwire : ∀ oid ∈ (expandWidget w is).oids, OnWire oid) {oid : Octets}
    (hoid : normaliseOID oid ∈ w.oids.map normaliseOID) :
    normaliseOID oid ∈ (expandWidget w is).oids.map normaliseOID ↔ hasPlaceholder oid = false := by
  constructor
  · intro hmem
    obtain ⟨o, ho, heq⟩ := List.mem_map.mp hmem
    rw [← hasPlaceholder_normaliseOID, ← heq, hasPlaceholder_normaliseOID]
    exact (hwire o ho).hasPlaceholder
  · intro hplain
    obtain ⟨o, ho, heq⟩ := List.mem_map.mp hoid
    have hfixed : o ∈ w.fixed := by
      refine List.mem_filter.mpr ⟨ho, ?_⟩
      rw [← hasPlaceholder_normaliseOID, heq, hasPlaceholder_normaliseOID, hplain]
      rfl
    rw [← heq, expandWidget_oids hdiscover]
    exact List.mem_map.mpr ⟨o, List.mem_append_right _ hfixed, rfl⟩

/-- A shape of an accepted drawing is bound to a reading of its widget. -/
theorem Widget.Valid.bound {i : Nat} (h : w.Valid ops i) {m : Map} (hm : m ∈ w.map) {s : Shape}
    (hs : s ∈ m.shapes) (hoid : s.oid ≠ []) : normaliseOID s.oid ∈ w.oids.map normaliseOID :=
  (@checkMap_expanded ops w i w.oids h.map).mp h.map m hm s hs hoid

/-- **When an accepted widget is accepted again**: its templates have become OIDs that can be
sent, and no shape of its drawing was bound to one. -/
theorem valid_expandWidget_iff {i : Nat} (h : w.Valid ops i) (hdiscover : w.discover.isSome = true)
    (his : is ≠ []) :
    (expandWidget w is).Valid ops i ↔ w.Sendable is ∧ w.Unbound := by
  have hdiscovery : checkDiscovery (widgetAt i) (expandWidget w is) = [] ↔
      (expandWidget w is).oids.filter hasPlaceholder = [] := by
    rw [checkDiscovery_eq_nil_iff, expandWidget_discover]
    exact Iff.rfl
  have hmap : checkMap ops (widgetAt i) (expandWidget w is) =
      checkMap ops (widgetAt i) { w with oids := (expandWidget w is).oids } :=
    checkMap_congr expandWidget_kind expandWidget_map rfl
  have hunbound : (∀ oid ∈ (expandWidget w is).oids, OnWire oid) →
      (checkMap ops (widgetAt i) (expandWidget w is) = [] ↔ w.Unbound) := by
    intro hwire
    rw [hmap, checkMap_expanded h.map]
    constructor
    · intro hbound m hm s hs
      by_cases hoid : s.oid = []
      · rw [hoid]
        decide
      · exact (bound_expanded_iff hdiscover hwire (h.bound hm hs hoid)).mp (hbound m hm s hs hoid)
    · intro hplain m hm s hs hoid
      exact (bound_expanded_iff hdiscover hwire (h.bound hm hs hoid)).mpr (hplain m hm s hs)
  constructor
  · intro hvalid
    have hwire := checked_plain_iff.mp
      ⟨checkOIDs_eq_nil_iff.mp hvalid.oids, hdiscovery.mp hvalid.discovery⟩
    exact ⟨(onWire_expanded_iff h hdiscover).mp hwire, (hunbound hwire).mp hvalid.map⟩
  · rintro ⟨hsend, hplain⟩
    have hwire := (onWire_expanded_iff h hdiscover).mpr hsend
    obtain ⟨hoids, hplaceholders⟩ := checked_plain_iff.mpr hwire
    obtain ⟨_, maxOIDs, hkind, hfits⟩ := h.expanded is
    refine ⟨?_, ?_, ?_, checkOIDs_eq_nil_iff.mpr hoids, hdiscovery.mpr hplaceholders, ?_, ?_,
      (hunbound hwire).mpr hplain, ?_⟩
    · rw [expandWidget_title]
      exact h.title
    · rw [expandWidget_unit]
      exact h.unit
    · refine checkKind_eq_nil_iff.mpr ⟨h.expanded_ne_nil hdiscover his, maxOIDs, ?_, hfits⟩
      rw [expandWidget_kind]
      exact hkind
    · rw [expandWidget_layout]
      exact h.layout
    · rw [expandWidget_kind, expandWidget_threshold]
      exact h.threshold
    · have hlabels : checkLabels (widgetAt i) (expandWidget w is) = checkLabels (widgetAt i) w := by
        unfold checkLabels
        rw [expandWidget_labels, expandWidget_kind]
      rw [hlabels]
      exact h.labels

/-! ## The whole preset -/

theorem getElem?_expand (i : Nat) :
    (expand p found).widgets[i]? = (p.widgets[i]?).map fun w => expandWidget w (found i) := by
  show (p.widgets.zipIdx.map _)[i]? = _
  rw [List.getElem?_map, List.getElem?_zipIdx]
  cases p.widgets[i]? with
  | none => rfl
  | some w =>
      rw [Option.map_some, Option.map_some, Nat.zero_add]
      rfl

theorem zipIdx_expand : (expand p found).widgets.zipIdx =
    p.widgets.zipIdx.map fun x => (expandWidget x.1 (found x.2), x.2) := by
  refine List.ext_getElem? fun i => ?_
  rw [List.getElem?_zipIdx, getElem?_expand, List.getElem?_map, List.getElem?_zipIdx]
  cases p.widgets[i]? <;> simp

/-- Nothing of the file but its widgets is changed, and not how many they are. -/
theorem checkHeader_expand : checkHeader (expand p found) = checkHeader p := by
  have hlength : (expand p found).widgets.length = p.widgets.length := by simp [expand]
  have hempty : (expand p found).widgets = [] ↔ p.widgets = [] := by
    rw [← List.length_eq_zero_iff, hlength, List.length_eq_zero_iff]
  unfold checkHeader
  rw [hlength]
  simp only [hempty]
  rfl

theorem checkLayoutOverlaps_expand :
    checkLayoutOverlaps (expand p found).widgets = checkLayoutOverlaps p.widgets := by
  unfold checkLayoutOverlaps
  rw [zipIdx_expand, List.filterMap_map]
  refine congrArg (fun boxes => sortErrors (overlapping boxes))
    (List.filterMap_congr fun x _ => ?_)
  show boxOf (expandWidget x.1 (found x.2)).layout x.2 = boxOf x.1.layout x.2
  rw [expandWidget_layout]

theorem counted_expand (h : validate ops p = []) :
    ((expand p found).widgets.map counted).sum ≤ (p.widgets.map counted).sum := by
  have hvalid := (validate_eq_nil_iff.mp h).2.1
  have hsum : ∀ ws : List (Widget × Nat), (∀ x ∈ ws, x.1.Valid ops x.2) →
      ((ws.map fun x => expandWidget x.1 (found x.2)).map counted).sum ≤
        ((ws.map Prod.fst).map counted).sum := by
    intro ws hws
    rw [List.map_map, List.map_map]
    refine List.sum_le_sum fun x hx => ?_
    have := ((hws x hx).expanded (found x.2)).1
    simpa [counted] using this
  have := hsum p.widgets.zipIdx fun x hx => hvalid x.2 x.1 (List.mem_zipIdx_iff_getElem?.mp hx)
  rwa [List.zipIdx_map_fst] at this

/-- **When an expanded preset is accepted**: what its templates became can be sent, no shape
was bound to a template, and the bands agree where two are on one reading. -/
theorem validate_expand_iff (h : validate ops p = []) (hfound : Finds found p) :
    validate ops (expand p found) = [] ↔
      (∀ i (w : Widget), p.widgets[i]? = some w → w.discover.isSome = true →
        w.Sendable (found i) ∧ w.Unbound) ∧
      Agree (claims (expand p found).widgets) := by
  obtain ⟨hheader, hwidgets, hoverlaps, _, htotal⟩ := validate_eq_nil_iff.mp h
  rw [validate_eq_nil_iff, checkHeader_expand, checkLayoutOverlaps_expand,
    checkThresholdConflicts_eq_nil_iff]
  have hone : ∀ i (w : Widget), p.widgets[i]? = some w →
      ((expandWidget w (found i)).Valid ops i ↔
        (w.discover.isSome = true → w.Sendable (found i) ∧ w.Unbound)) := by
    intro i w hw
    by_cases hdiscover : w.discover.isSome = true
    · rw [valid_expandWidget_iff (hwidgets i w hw) hdiscover (hfound i w hw hdiscover)]
      exact ⟨fun hv _ => hv, fun hv => hv hdiscover⟩
    · have hnone : w.discover = none := by simpa using hdiscover
      rw [expandWidget_none hnone]
      exact ⟨fun _ hd => absurd hd hdiscover, fun _ => hwidgets i w hw⟩
  constructor
  · rintro ⟨_, hvalid, _, hagree, _⟩
    refine ⟨fun i w hw => (hone i w hw).mp (hvalid i _ ?_), hagree⟩
    rw [getElem?_expand, hw]
    rfl
  · rintro ⟨hall, hagree⟩
    refine ⟨hheader, fun i v hv => ?_, hoverlaps, hagree, (counted_expand h).trans htotal⟩
    rw [getElem?_expand] at hv
    obtain ⟨w, hw, rfl⟩ := Option.map_eq_some_iff.mp hv
    exact (hone i w hw).mpr (hall i w hw)

/-! ## What still refers to a reading -/

theorem watched_polled {key : Octets} (h : key ∈ (thresholdsFor p).map Prod.fst) :
    key ∈ pollOIDs p := by
  rw [← List.mem_toFinset, (thresholdsFor_listing p).toFinset, mem_keys] at h
  rw [← List.mem_toFinset, (pollOIDs_listing p).toFinset, mem_keys]
  obtain ⟨v, hv, oid, hoid, rfl⟩ := h
  exact ⟨v, List.mem_of_mem_filter hv, oid, hoid, rfl⟩

theorem mem_put {ν : Type} {m : List (Octets × ν)} {key : Octets} {value : ν} {e : Octets × ν}
    (h : e ∈ put m key value) : e ∈ m ∨ e = (key, value) := by
  rcases List.mem_append.mp h with h | h
  · exact .inl (List.mem_of_mem_filter h)
  · exact .inr (List.mem_singleton.mp h)

/-- A label that expansion writes names one of the widget's own readings. -/
theorem labels_read (w : Widget) (is : List Instance) :
    (expandWidget w is).oidLabels = w.oidLabels ∨
      ∀ e ∈ (expandWidget w is).oidLabels, e.1 ∈ (expandWidget w is).oids := by
  cases hdiscover : w.discover with
  | none =>
      rw [expandWidget_none hdiscover]
      exact .inl rfl
  | some d =>
      have hfold : ∀ (es m : List (Octets × Octets)) (e : Octets × Octets),
          e ∈ es.foldl (fun m e => put m e.1 e.2) m → e ∈ m ∨ e ∈ es := by
        intro es
        induction es with
        | nil => intro m e h; exact .inl h
        | cons x es ih =>
            intro m e h
            rcases ih (put m x.1 x.2) e h with h | h
            · rcases mem_put h with h | h
              · exact .inl h
              · exact .inr (List.mem_cons.mpr (.inl h))
            · exact .inr (List.mem_cons_of_mem x h)
      rw [expandWidget_oids (by simp [hdiscover])]
      unfold expandWidget
      rw [hdiscover]
      dsimp only
      split
      · exact .inl rfl
      · refine .inr fun e he => ?_
        rcases hfold _ _ _ he with he | he
        · cases he
        · exact List.mem_append_left _ (List.mem_map.mpr ⟨e, List.mem_of_mem_filter he, rfl⟩)

/--
**Expansion, and what the second validation decides.**

Of an accepted preset, with an instance found for every widget that discovers and no drawing
of one bound to a template: the expanded preset is accepted exactly when the OIDs its
templates became can be sent, and wherever two bands are on one reading they are the same
band. Whether it is accepted or not, every band is on a reading that is polled, and every
label expansion writes is on a reading of its widget.
-/
theorem expand_accepted_iff (h : validate ops p = []) (hfound : Finds found p)
    (hunbound : ∀ w ∈ p.widgets, w.discover.isSome = true → w.Unbound) :
    (validate ops (expand p found) = [] ↔
      (∀ i (w : Widget), p.widgets[i]? = some w → w.discover.isSome = true →
        w.Sendable (found i)) ∧
      Agree (claims (expand p found).widgets)) ∧
    (∀ key ∈ (thresholdsFor (expand p found)).map Prod.fst, key ∈ pollOIDs (expand p found)) ∧
    ∀ i (w : Widget), p.widgets[i]? = some w →
      (expandWidget w (found i)).oidLabels = w.oidLabels ∨
        ∀ e ∈ (expandWidget w (found i)).oidLabels, e.1 ∈ (expandWidget w (found i)).oids := by
  refine ⟨?_, fun key hkey => watched_polled hkey, fun i w _ => labels_read w (found i)⟩
  rw [validate_expand_iff h hfound]
  constructor
  · rintro ⟨hall, hagree⟩
    exact ⟨fun i w hw hd => (hall i w hw hd).1, hagree⟩
  · rintro ⟨hall, hagree⟩
    exact ⟨fun i w hw hd => ⟨hall i w hw hd, hunbound w (List.mem_of_getElem? hw) hd⟩, hagree⟩

theorem finds_ports (alone : Octets) (max : Float64) : Finds twoPorts (ports alone max) := by
  intro i w hw hd
  match i with
  | 0 => exact List.cons_ne_nil _ _
  | 1 =>
      obtain rfl := Option.some.inj hw
      cases hd
  | _ + 2 => exact absurd hw (by simp [ports])

theorem expand_accepted_iff_ports :
    let p := ports (octets ".1.3.6.1.2.1.2.2.1.8.1") ⟨0x3ff0000000000000⟩
    validate plain (expand p twoPorts) = [] ↔
      (∀ i (w : Widget), p.widgets[i]? = some w → w.discover.isSome = true →
        w.Sendable (twoPorts i)) ∧
      Agree (claims (expand p twoPorts).widgets) := by
  refine (expand_accepted_iff (by decide +kernel) (finds_ports _ _) fun w hw _ m hm => ?_).1
  rcases List.mem_cons.mp hw with rfl | hw
  · cases hm
  · rw [List.mem_singleton.mp hw] at hm
    cases hm

/-- A port that is watched by itself, under another band than the wall's, is only met once the
device has answered. -/
theorem expand_conflicting :
    ¬ ∀ (ops : Floats) (p : Preset) (found : Nat → List Instance), validate ops p = [] →
      Finds found p → validate ops (expand p found) = [] := by
  intro hclaim
  have hvalid := hclaim plain (ports (octets "1.3.6.1.2.1.2.2.1.8.1") ⟨0x4000000000000000⟩) twoPorts
    (by decide +kernel) (finds_ports _ _)
  revert hvalid
  decide +kernel

end SnmpLens.Presets
