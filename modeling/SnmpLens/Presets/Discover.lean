import Mathlib.Data.List.Dedup
import SnmpLens.Presets.Model

/-!
# A preset that finds its instances

`pkg/preset/discover.go`. A widget may say where to find its instances instead of listing
them: one walk of a column, when the preset is bound, turns its templates into addresses.
How many instances a widget takes is bounded before anything is walked, by what was
declared and by what its kind has room for; `instancesTaken_fit` is that the room suffices.
-/

namespace SnmpLens.Presets

open Utf8 Strings

def maxDiscoveredPerWidget : Nat := 128

/-- `m[key] = value`. -/
def put {ν : Type} (m : List (Octets × ν)) (key : Octets) (value : ν) : List (Octets × ν) :=
  m.filter (fun e => e.1 ≠ key) ++ [(key, value)]

namespace Widget

/-- The OIDs with a placeholder in them. -/
def templates (w : Widget) : List Octets := w.oids.filter hasPlaceholder

/-- The OIDs that are addresses already. -/
def fixed (w : Widget) : List Octets := w.oids.filter fun oid => !hasPlaceholder oid

theorem length_fixed (w : Widget) : w.templates.length + w.fixed.length = w.oids.length := by
  have h := List.length_eq_length_filter_add (l := w.oids) hasPlaceholder
  unfold templates fixed
  omega

end Widget

def hasDiscovery (p : Preset) : Bool := p.widgets.any fun w => w.discover.isSome

/-- What bounds one walk: what was declared, or the default. -/
def walkBound (d : Discover) : Nat := if 0 < d.max then d.max.toNat else maxDiscoveredPerWidget

theorem pos_walkBound (d : Discover) : 0 < walkBound d := by
  unfold walkBound
  split
  · omega
  · decide

/-- `discoverInstanceLimit`: how many instances one widget may take. -/
def discoverInstanceLimit (w : Widget) : Nat :=
  match w.discover with
  | none => 0
  | some d =>
      let limit := walkBound d
      let templates := w.templates.length
      if templates = 0 then 0
      else
        match widgetDoc w.kind with
        | some maxOIDs =>
            if 0 < maxOIDs then
              -- the fixed OIDs take their share of the room first
              let byKind := (maxOIDs - (w.oids.length - templates)) / templates
              if byKind < limit then byKind else limit
            else limit
        | none => limit

/-- What the templates become: every one of the first instance, then every one of the
second. -/
def made (w : Widget) (found : List Instance) : List (Octets × Octets) :=
  (found.take (discoverInstanceLimit w)).flatMap fun i =>
    w.templates.map fun tmpl => (instantiate i.suffix tmpl, i.label)

def expandWidget (w : Widget) (found : List Instance) : Widget :=
  match w.discover with
  | none => w
  | some _ =>
      let labels := ((made w found).filter fun e => e.2 ≠ []).foldl (fun m e => put m e.1 e.2) []
      { w with
        discover := none
        oids := (made w found).map Prod.fst ++ w.fixed
        oidLabels := if labels.isEmpty then w.oidLabels else labels }

/-- `Expand`: what each widget's walk found is given by the widget's index. -/
def expand (p : Preset) (found : Nat → List Instance) : Preset :=
  { p with widgets := p.widgets.zipIdx.map fun (w, i) => expandWidget w (found i) }

/-- `DiscoveryWalks`: the columns to walk, each once. -/
def discoveryWalks (p : Preset) : List Octets :=
  let columns := (p.widgets.filterMap Widget.discover).map fun d => trimPrefix 46 d.walk
  ((columns.filter fun key => key ≠ []).dedup).mergeSort fun a b => !decide (b < a)

/-- `InstancesFrom`: the rows of a column among what a walk of it answered. -/
def instancesFrom (column : Octets) (oids : List Octets) (valueOf : Octets → Octets) :
    List Instance :=
  let front := trimPrefix 46 (trimSpace column)
  if front = [] then []
  else
    oids.filterMap fun raw =>
      let oid := trimPrefix 46 (trimSpace raw)
      if !(front ++ [46]).isPrefixOf oid then none
      else
        let suffix := oid.drop (front.length + 1)
        if suffix = [] then none else some ⟨suffix, valueOf raw⟩

def checkDiscovery (at_ : Octets) (w : Widget) : List Error :=
  match w.discover with
  | none =>
      if w.templates.length = 0 then []
      else [errf (at_ ++ octets ".oids") "placeholderWithoutDiscover" []]
  | some d =>
      checkOID (at_ ++ octets ".discover.walk") d.walk ++
      (if w.templates.length = 0 then
        [errf (at_ ++ octets ".oids") "discoverWithoutPlaceholder"
          [("placeholder", instancePlaceholder)]]
      else []) ++
      (if d.max < 0 ∨ (maxOIDsPerPreset : Int) < d.max then
        [errf (at_ ++ octets ".discover.max") "outOfRange"
          [("min", octets "1"), ("max", formatUint maxOIDsPerPreset)]]
      else [])

/-! ## What a widget holds once it is expanded -/

variable {w : Widget} {found : List Instance}

theorem expandWidget_none (h : w.discover = none) : expandWidget w found = w := by
  unfold expandWidget
  rw [h]

@[simp] theorem expandWidget_kind : (expandWidget w found).kind = w.kind := by
  unfold expandWidget
  split <;> rfl

@[simp] theorem expandWidget_title : (expandWidget w found).title = w.title := by
  unfold expandWidget
  split <;> rfl

@[simp] theorem expandWidget_unit : (expandWidget w found).unit = w.unit := by
  unfold expandWidget
  split <;> rfl

@[simp] theorem expandWidget_labels : (expandWidget w found).labels = w.labels := by
  unfold expandWidget
  split <;> rfl

@[simp] theorem expandWidget_threshold : (expandWidget w found).threshold = w.threshold := by
  unfold expandWidget
  split <;> rfl

@[simp] theorem expandWidget_map : (expandWidget w found).map = w.map := by
  unfold expandWidget
  split <;> rfl

@[simp] theorem expandWidget_layout : (expandWidget w found).layout = w.layout := by
  unfold expandWidget
  split <;> rfl

@[simp] theorem expandWidget_discover : (expandWidget w found).discover = none := by
  unfold expandWidget
  split
  · assumption
  · rfl

theorem expandWidget_oids (h : w.discover.isSome = true) :
    (expandWidget w found).oids = (made w found).map Prod.fst ++ w.fixed := by
  unfold expandWidget
  obtain ⟨d, hd⟩ := Option.isSome_iff_exists.mp h
  rw [hd]

theorem mem_made {e : Octets × Octets} :
    e ∈ made w found ↔ ∃ i ∈ found.take (discoverInstanceLimit w), ∃ tmpl ∈ w.templates,
      e = (instantiate i.suffix tmpl, i.label) := by
  simp only [made, List.mem_flatMap, List.mem_map, eq_comm]

theorem length_made :
    (made w found).length = min (discoverInstanceLimit w) found.length * w.templates.length := by
  have hconst : ∀ is : List Instance, (is.flatMap fun i : Instance =>
      w.templates.map fun tmpl => (instantiate i.suffix tmpl, i.label)).length =
        is.length * w.templates.length := by
    intro is
    induction is with
    | nil => simp
    | cons i is ih =>
        rw [List.flatMap_cons, List.length_append, List.length_map, ih, List.length_cons,
          Nat.succ_mul, Nat.add_comm]
  unfold made
  rw [hconst, List.length_take]

theorem length_expandWidget (h : w.discover.isSome = true) :
    (expandWidget w found).oids.length =
      min (discoverInstanceLimit w) found.length * w.templates.length + w.fixed.length := by
  rw [expandWidget_oids h, List.length_append, List.length_map, length_made]

/-- **The room of a kind suffices for the instances taken**: where the widget as it is
written fits its kind, so does all that its templates may become. -/
theorem instancesTaken_fit {maxOIDs : Nat} (hkind : widgetDoc w.kind = some maxOIDs)
    (hfits : w.oids.length ≤ maxOIDs) :
    discoverInstanceLimit w * w.templates.length + w.fixed.length ≤ maxOIDs := by
  have hsplit := w.length_fixed
  have hpos := pos_of_widgetDoc hkind
  unfold discoverInstanceLimit
  split
  · omega
  · dsimp only
    rw [hkind]
    dsimp only
    rw [if_pos hpos]
    split
    · omega
    · rename_i htemplates
      have hroom := Nat.div_mul_le_self (maxOIDs - (w.oids.length - w.templates.length))
        w.templates.length
      split
      · omega
      · rename_i hlimit
        have := Nat.mul_le_mul_right w.templates.length (Nat.le_of_not_lt hlimit)
        omega

/-- **A widget that is accepted takes an instance if there is one.** -/
theorem pos_limit {maxOIDs : Nat} (hkind : widgetDoc w.kind = some maxOIDs)
    (hfits : w.oids.length ≤ maxOIDs) (hdiscover : w.discover.isSome = true)
    (htemplates : w.templates.length ≠ 0) : 0 < discoverInstanceLimit w := by
  have hsplit := w.length_fixed
  have hpos := pos_of_widgetDoc hkind
  obtain ⟨d, hd⟩ := Option.isSome_iff_exists.mp hdiscover
  have hroom : 0 < (maxOIDs - (w.oids.length - w.templates.length)) / w.templates.length :=
    Nat.div_pos (by omega) (by omega)
  unfold discoverInstanceLimit
  rw [hd]
  dsimp only
  rw [if_neg htemplates, hkind]
  dsimp only
  rw [if_pos hpos]
  split
  · exact hroom
  · exact pos_walkBound d

end SnmpLens.Presets
