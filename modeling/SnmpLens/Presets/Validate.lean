import Mathlib.Data.List.Pairwise
import SnmpLens.Presets.Discover

/-!
# What a preset is refused for

`Validate` of `pkg/preset/preset.go`, with the checks of `layout.go`, `threshold.go` and
`map.go`. Every problem is reported, not the first one, so a preset is accepted when the
list of its problems is empty: `validate_eq_nil_iff` takes that apart into what is checked
of the file, of each widget, and between widgets.
-/

namespace SnmpLens.Presets

open Utf8 Strings Events

/-- `strconv.ParseInt(s, 10, 64)` reads it. -/
def parsesInt64 (s : Octets) : Bool :=
  match s with
  | 45 :: rest => match parseUint 64 rest with
      | some n => n ≤ 2 ^ 63
      | none => false
  | 43 :: rest => match parseUint 64 rest with
      | some n => n < 2 ^ 63
      | none => false
  | _ => match parseUint 64 s with
      | some n => n < 2 ^ 63
      | none => false

/-! ## Layout -/

def layoutColumns : Int := 12
def maxLayoutRow : Int := 64
def maxLayoutHeight : Int := 12

/-- `Layout.Height`. -/
def Layout.height (l : Layout) : Int := if l.h ≤ 0 then 1 else l.h

/-- The ranges `checkLayout` holds a number to. -/
def checkRange (field : Octets) (v min max : Int) : List Error :=
  if v < min ∨ max < v then
    [errf field "outOfRange" [("min", formatInt min), ("max", formatInt max)]]
  else []

def checkLayout (at_ : Octets) : Option Layout → List Error
  | none => []
  | some l =>
      checkRange (at_ ++ octets ".x") l.x 0 (layoutColumns - 1) ++
      checkRange (at_ ++ octets ".y") l.y 0 maxLayoutRow ++
      checkRange (at_ ++ octets ".w") l.w 1 layoutColumns ++
      (if l.h ≠ 0 then checkRange (at_ ++ octets ".h") l.h 1 maxLayoutHeight else []) ++
      (if 1 ≤ l.w ∧ 0 ≤ l.x ∧ layoutColumns < l.x + l.w then
        [errf at_ "layoutOverflow" [("x", formatInt l.x), ("w", formatInt l.w),
          ("columns", formatInt layoutColumns)]]
      else [])

/-- The cells a placed widget covers. -/
structure Box where
  i : Nat
  x0 : Int
  y0 : Int
  x1 : Int
  y1 : Int
deriving DecidableEq, Repr

/-- The box of a widget that is placed; what is wrong with a placement, `checkLayout` says. -/
def boxOf (layout : Option Layout) (i : Nat) : Option Box :=
  match layout with
  | none => none
  | some l =>
      if l.w < 1 ∨ l.x < 0 ∨ l.y < 0 then none
      else some ⟨i, l.x, l.y, l.x + l.w, l.y + l.height⟩

def Box.overlaps (p q : Box) : Bool := p.x0 < q.x1 && q.x0 < p.x1 && p.y0 < q.y1 && q.y0 < p.y1

/-- `sort.SliceStable` by `Field`. -/
def sortErrors (errs : List Error) : List Error :=
  errs.mergeSort fun a b => !decide (b.field < a.field)

/-- The field of a widget. -/
def widgetAt (i : Nat) : Octets := octets "widgets[" ++ formatUint i ++ octets "]"

/-- The pairs of boxes, the first with each behind it, then the next. -/
def overlapping : List Box → List Error
  | [] => []
  | p :: boxes =>
      ((boxes.filter p.overlaps).map fun q =>
        errf (widgetAt q.i ++ octets ".layout") "layoutOverlap" [("other", formatUint (p.i + 1))]) ++
      overlapping boxes

def checkLayoutOverlaps (widgets : List Widget) : List Error :=
  sortErrors (overlapping (widgets.zipIdx.filterMap fun (w, i) => boxOf w.layout i))

/-! ## Thresholds -/

def maxThresholdHoldSec : Int := 86400

/-- `Threshold.Alerts`: absent means yes. -/
def Threshold.alerts (t : Threshold) : Bool := t.alertEnabled.getD true

/-- Two bounds are the same, or are both absent. -/
def sameBound : Option Float64 → Option Float64 → Bool
  | none, none => true
  | some a, some b => a.eq b
  | _, _ => false

/-- `Threshold.Equal`. -/
def Threshold.equal (t other : Threshold) : Bool :=
  sameBound t.min other.min && sameBound t.max other.max && t.forSeconds == other.forSeconds &&
    t.alerts == other.alerts

def checkThreshold (ops : Floats) (at_ kind : Octets) : Option Threshold → List Error
  | none => []
  | some t =>
      (if t.min = none ∧ t.max = none then [errf at_ "thresholdWithoutBound" []] else []) ++
      (match t.min, t.max with
      | some min, some max =>
          if max.lt min then
            [errf at_ "thresholdInverted" [("min", ops.trimFloat min), ("max", ops.trimFloat max)]]
          else []
      | _, _ => []) ++
      (if t.forSeconds < 0 ∨ maxThresholdHoldSec < t.forSeconds then
        [errf (at_ ++ octets ".forSeconds") "outOfRange"
          [("min", octets "0"), ("max", formatInt maxThresholdHoldSec)]]
      else []) ++
      (if kind = kindRate then [errf at_ "thresholdOnRate" [("kind", kind)]] else [])

/-- One widget's claim that a reading should stay inside a band. -/
structure Claim where
  widget : Nat
  key : Octets
  band : Threshold
deriving DecidableEq, Repr

/-- The claims of a widget, in the order of its OIDs. A template is claimed by nobody yet. -/
def claimsOf (i : Nat) (w : Widget) : List Claim :=
  match w.threshold with
  | none => []
  | some band => w.fixed.map fun oid => ⟨i, normaliseOID oid, band⟩

def claims (widgets : List Widget) : List Claim := widgets.zipIdx.flatMap fun (w, i) => claimsOf i w

/-- What `checkThresholdConflicts` has seen so far: the first claim on each reading, the
readings that are reported, and the reports. -/
structure Conflicts where
  first : List Claim := []
  seen : List Octets := []
  errs : List Error := []
deriving Repr

def Conflicts.add (s : Conflicts) (c : Claim) : Conflicts :=
  match s.first.find? fun held => held.key = c.key with
  | none => { s with first := s.first ++ [c] }
  | some held =>
      if held.band.equal c.band then s
      else if c.key ∈ s.seen then s
      else
        { s with
          seen := c.key :: s.seen
          errs := s.errs ++ [errf (widgetAt c.widget ++ octets ".threshold") "thresholdConflict"
            [("oid", clip c.key), ("other", formatUint (held.widget + 1))]] }

def checkThresholdConflicts (widgets : List Widget) : List Error :=
  sortErrors ((claims widgets).foldl Conflicts.add {}).errs

/-! ## Maps -/

def shapeRect : Octets := octets "rect"
def shapeLine : Octets := octets "line"
def shapeLabel : Octets := octets "label"
def shapeDot : Octets := octets "dot"

def shapeTypes : List Octets := [shapeRect, shapeLine, shapeLabel, shapeDot]

def knownShape (t : Octets) : Bool := shapeTypes.contains t

def maxShapesPerMap : Nat := 200
def maxAssetNameLen : Nat := 120

/-- 0.2, the least width of a drawing for its height. -/
def minMapAspect : Float64 := ⟨0x3fc999999999999a⟩

/-- 12. -/
def maxMapAspect : Float64 := ⟨0x4028000000000000⟩

def zero : Float64 := ⟨0⟩

def hundred : Float64 := ⟨0x4059000000000000⟩

/-- What `strings.ContainsAny`, `Contains`, `HasPrefix` and `TrimSpace` see in a file name
that would not stay a leaf. -/
def leavesDirectory (name : Octets) : Bool :=
  name.any (fun b => b == 47 || b == 92 || b == 58) || decide (octets ".." <:+: name) ||
    (octets ".").isPrefixOf name || trimSpace name != name

def checkAssetName (field name : Octets) : List Error :=
  if name = [] then []
  else if maxAssetNameLen < name.length then
    [errf field "tooLong" [("found", formatUint name.length), ("max", formatUint maxAssetNameLen)]]
  else if leavesDirectory name then [errf field "assetName" [("name", clip name)]]
  else checkText field name

/-- A coordinate is a percentage. -/
def checkPercent (field : Octets) (v : Float64) : List Error :=
  if v.lt zero || hundred.lt v then
    [errf field "outOfRange" [("min", octets "0"), ("max", octets "100")]]
  else []

/-- What is asked of a shape by its type. -/
def checkExtent (ops : Floats) (at_ : Octets) (s : Shape) : List Error :=
  if s.type = shapeRect then
    (if s.w.le zero || s.h.le zero then [errf at_ "shapeWithoutSize" []] else []) ++
    checkPercent (at_ ++ octets ".w") s.w ++
    checkPercent (at_ ++ octets ".h") s.h ++
    (if zero.lt s.w && hundred.lt (ops.add s.x s.w) then
      [errf at_ "shapeOutsideMap" [("axis", octets "x")]] else []) ++
    (if zero.lt s.h && hundred.lt (ops.add s.y s.h) then
      [errf at_ "shapeOutsideMap" [("axis", octets "y")]] else [])
  else if s.type = shapeLine then
    checkPercent (at_ ++ octets ".x2") s.x2 ++
    checkPercent (at_ ++ octets ".y2") s.y2 ++
    (if s.x.eq s.x2 && s.y.eq s.y2 then [errf at_ "shapeWithoutSize" []] else [])
  else if s.type = shapeLabel then
    if trimSpace s.text = [] then [errf (at_ ++ octets ".text") "empty" []] else []
  else []

/-- What is asked of the reading a shape is bound to. -/
def checkBinding (at_ oid : Octets) (known : List Octets) : List Error :=
  if oid = [] then []
  else
    let errs := checkOID (at_ ++ octets ".oid") (instantiate (octets "1") oid)
    if errs ≠ [] then errs
    else if normaliseOID oid ∉ known then
      [errf (at_ ++ octets ".oid") "shapeOidNotInWidget" [("oid", clip oid)]]
    else []

def checkShape (ops : Floats) (at_ : Octets) (s : Shape) (known : List Octets) : List Error :=
  (if !knownShape s.type then [errf (at_ ++ octets ".type") "unknownShape" [("type", clip s.type)]]
  else []) ++
  checkPercent (at_ ++ octets ".x") s.x ++
  checkPercent (at_ ++ octets ".y") s.y ++
  checkExtent ops at_ s ++
  checkText (at_ ++ octets ".text") s.text ++
  checkBinding at_ s.oid known

/-- What is asked of a drawing, whichever widget it is on. -/
def checkDrawing (ops : Floats) (at_ : Octets) (m : Map) : List Error :=
  checkAssetName (at_ ++ octets ".map.background") m.background ++
  (if !m.aspect.eq zero && (m.aspect.lt minMapAspect || maxMapAspect.lt m.aspect) then
    [errf (at_ ++ octets ".map.aspect") "outOfRange"
      [("min", ops.trimFloat minMapAspect), ("max", ops.trimFloat maxMapAspect)]]
  else []) ++
  (if m.shapes = [] then [errf (at_ ++ octets ".map.shapes") "empty" []] else []) ++
  (if maxShapesPerMap < m.shapes.length then
    [errf (at_ ++ octets ".map.shapes") "tooMany"
      [("found", formatUint m.shapes.length), ("max", formatUint maxShapesPerMap)]]
  else [])

def checkMap (ops : Floats) (at_ : Octets) (w : Widget) : List Error :=
  if w.kind ≠ kindMap then
    match w.map with
    | some _ => [errf (at_ ++ octets ".map") "mapOnlyForMap" [("kind", clip w.kind)]]
    | none => []
  else
    match w.map with
    | none => [errf (at_ ++ octets ".map") "missing" []]
    | some m =>
        checkDrawing ops at_ m ++
        m.shapes.zipIdx.flatMap fun (s, i) =>
          checkShape ops (at_ ++ octets ".map.shapes[" ++ formatUint i ++ octets "]") s
            (w.oids.map normaliseOID)

/-! ## The whole -/

/-- What is asked of the file itself. -/
def checkHeader (p : Preset) : List Error :=
  (if p.formatVersion < 1 then [errf (octets "formatVersion") "missing" []]
  else if currentVersion < p.formatVersion then
    [errf (octets "formatVersion") "tooNew"
      [("found", formatInt p.formatVersion), ("supported", formatInt currentVersion)]]
  else []) ++
  (if trimSpace p.name = [] then [errf (octets "name") "missing" []] else []) ++
  checkText (octets "name") p.name ++
  checkText (octets "author") p.author ++
  checkProse (octets "description") p.description ++
  checkText (octets "match.vendor") p.match_.vendor ++
  (if p.intervalSec = 0 then [errf (octets "intervalSec") "missing" []]
  else if p.intervalSec < minIntervalSec ∨ maxIntervalSec < p.intervalSec then
    [errf (octets "intervalSec") "outOfRange"
      [("min", formatInt minIntervalSec), ("max", formatInt maxIntervalSec)]]
  else []) ++
  (p.match_.sysObjectIDPrefix.zipIdx.flatMap fun (oid, i) =>
    checkOID (octets "match.sysObjectIdPrefix[" ++ formatUint i ++ octets "]") oid) ++
  (if p.widgets = [] then [errf (octets "widgets") "empty" []] else []) ++
  (if maxWidgets < p.widgets.length then
    [errf (octets "widgets") "tooMany"
      [("found", formatUint p.widgets.length), ("max", formatUint maxWidgets)]]
  else [])

/-- What is asked of a widget's kind and of how many readings it has. -/
def checkKind (at_ : Octets) (w : Widget) : List Error :=
  (if widgetDoc w.kind = none then
    [errf (at_ ++ octets ".kind") "unknownKind" [("kind", clip w.kind)]] else []) ++
  (if w.oids = [] then [errf (at_ ++ octets ".oids") "empty" []] else []) ++
  (match widgetDoc w.kind with
  | none => []
  | some maxOIDs =>
      if 0 < maxOIDs ∧ maxOIDs < w.oids.length then
        [errf (at_ ++ octets ".oids") "tooManyForKind" [("kind", w.kind),
          ("found", formatUint w.oids.length), ("max", formatUint maxOIDs)]]
      else [])

/-- A template is checked as the OID it becomes of a single instance. -/
def checkOIDs (at_ : Octets) (w : Widget) : List Error :=
  w.oids.zipIdx.flatMap fun (oid, j) =>
    checkOID (at_ ++ octets ".oids[" ++ formatUint j ++ octets "]") (instantiate (octets "1") oid)

def checkLabels (at_ : Octets) (w : Widget) : List Error :=
  (if w.labels ≠ [] ∧ !kindTakesLabels w.kind then
    [errf (at_ ++ octets ".labels") "labelsOnlyForStatus" [("kind", clip w.kind)]] else []) ++
  w.labels.flatMap fun (k, v) =>
    if !parsesInt64 k then [errf (at_ ++ octets ".labels") "labelKey" [("key", clip k)]]
    else checkText (at_ ++ octets ".labels." ++ k) v

/-- What is asked of one widget. -/
def checkWidget (ops : Floats) (i : Nat) (w : Widget) : List Error :=
  let at_ := widgetAt i
  checkText (at_ ++ octets ".title") w.title ++
  checkText (at_ ++ octets ".unit") w.unit ++
  checkKind at_ w ++
  checkOIDs at_ w ++
  checkDiscovery at_ w ++
  checkLayout (at_ ++ octets ".layout") w.layout ++
  checkThreshold ops (at_ ++ octets ".threshold") w.kind w.threshold ++
  checkMap ops at_ w ++
  checkLabels at_ w

/-- What a widget counts for: a discovering one its bound, not its templates. -/
def counted (w : Widget) : Nat :=
  if w.discover.isSome then w.oids.length * discoverInstanceLimit w else w.oids.length

def validate (ops : Floats) (p : Preset) : List Error :=
  let total := (p.widgets.map counted).sum
  checkHeader p ++
  (p.widgets.zipIdx.flatMap fun (w, i) => checkWidget ops i w) ++
  checkLayoutOverlaps p.widgets ++
  checkThresholdConflicts p.widgets ++
  (if maxOIDsPerPreset < total then
    [errf (octets "widgets") "tooManyOids"
      [("found", formatUint total), ("max", formatUint maxOIDsPerPreset)]]
  else [])

/-! ## Nothing to object to -/

variable {ops : Floats} {p : Preset} {w : Widget}

/-- Nothing is listed of a list, each with its index, when nothing is listed of any. -/
theorem zipIdx_flatMap_eq_nil_iff {α β : Type} {l : List α} {f : α × Nat → List β} :
    l.zipIdx.flatMap f = [] ↔ ∀ i a, l[i]? = some a → f (a, i) = [] := by
  rw [List.flatMap_eq_nil_iff]
  constructor
  · intro h i a ha
    exact h (a, i) (List.mem_zipIdx_iff_getElem?.mpr ha)
  · intro h x hx
    exact h x.2 x.1 (List.mem_zipIdx_iff_getElem?.mp hx)

theorem sortErrors_eq_nil_iff {errs : List Error} : sortErrors errs = [] ↔ errs = [] := by
  unfold sortErrors
  rw [← List.length_eq_zero_iff, (List.mergeSort_perm _ _).length_eq, List.length_eq_zero_iff]

/-- A widget there is nothing to object to in. -/
structure Widget.Valid (ops : Floats) (i : Nat) (w : Widget) : Prop where
  title : checkText (widgetAt i ++ octets ".title") w.title = []
  unit : checkText (widgetAt i ++ octets ".unit") w.unit = []
  kind : checkKind (widgetAt i) w = []
  oids : checkOIDs (widgetAt i) w = []
  discovery : checkDiscovery (widgetAt i) w = []
  layout : checkLayout (widgetAt i ++ octets ".layout") w.layout = []
  threshold : checkThreshold ops (widgetAt i ++ octets ".threshold") w.kind w.threshold = []
  map : checkMap ops (widgetAt i) w = []
  labels : checkLabels (widgetAt i) w = []

theorem checkWidget_eq_nil_iff {i : Nat} : checkWidget ops i w = [] ↔ w.Valid ops i := by
  unfold checkWidget
  simp only [List.append_eq_nil_iff]
  constructor
  · rintro ⟨⟨⟨⟨⟨⟨⟨⟨title, unit⟩, kind⟩, oids⟩, discovery⟩, layout⟩, threshold⟩, map⟩, labels⟩
    exact ⟨title, unit, kind, oids, discovery, layout, threshold, map, labels⟩
  · rintro ⟨title, unit, kind, oids, discovery, layout, threshold, map, labels⟩
    exact ⟨⟨⟨⟨⟨⟨⟨⟨title, unit⟩, kind⟩, oids⟩, discovery⟩, layout⟩, threshold⟩, map⟩, labels⟩

/-- **What a preset is accepted for**: the file, every widget, and what is between them. -/
theorem validate_eq_nil_iff : validate ops p = [] ↔
    checkHeader p = [] ∧ (∀ i (w : Widget), p.widgets[i]? = some w → w.Valid ops i) ∧
      checkLayoutOverlaps p.widgets = [] ∧ checkThresholdConflicts p.widgets = [] ∧
      (p.widgets.map counted).sum ≤ maxOIDsPerPreset := by
  have htotal : ∀ total : Nat, (if maxOIDsPerPreset < total then
      [errf (octets "widgets") "tooManyOids"
        [("found", formatUint total), ("max", formatUint maxOIDsPerPreset)]]
      else []) = [] ↔ total ≤ maxOIDsPerPreset := by
    intro total
    split <;> simp <;> omega
  unfold validate
  simp only [List.append_eq_nil_iff, zipIdx_flatMap_eq_nil_iff, checkWidget_eq_nil_iff, htotal,
    and_assoc]

/-- The kind of an accepted widget is known, and has room for the readings it has. -/
theorem checkKind_eq_nil_iff {at_ : Octets} : checkKind at_ w = [] ↔
    w.oids ≠ [] ∧ ∃ maxOIDs, widgetDoc w.kind = some maxOIDs ∧ w.oids.length ≤ maxOIDs := by
  unfold checkKind
  simp only [List.append_eq_nil_iff]
  cases hdoc : widgetDoc w.kind with
  | none => simp
  | some maxOIDs =>
      have hpos := pos_of_widgetDoc hdoc
      simp [hpos]

theorem checkOIDs_eq_nil_iff {at_ : Octets} :
    checkOIDs at_ w = [] ↔ ∀ oid ∈ w.oids, OnWire (instantiate (octets "1") oid) := by
  unfold checkOIDs
  rw [zipIdx_flatMap_eq_nil_iff]
  simp only [checkOID_eq_nil_iff]
  constructor
  · intro h oid hoid
    obtain ⟨i, hi⟩ := List.getElem?_of_mem hoid
    exact h i oid hi
  · intro h i oid hi
    exact h oid (List.mem_of_getElem? hi)

theorem checkDiscovery_eq_nil_iff {at_ : Octets} : checkDiscovery at_ w = [] ↔
    match w.discover with
    | none => w.templates = []
    | some d => OnWire d.walk ∧ w.templates ≠ [] ∧ 0 ≤ d.max ∧ d.max ≤ maxOIDsPerPreset := by
  unfold checkDiscovery
  cases w.discover with
  | none => simp
  | some d =>
      simp only [List.append_eq_nil_iff, checkOID_eq_nil_iff]
      simp
      tauto

/-! ## Bands that agree -/

theorem sameBound_symm {a b : Option Float64} (h : sameBound a b = true) :
    sameBound b a = true := by
  cases a <;> cases b <;> simp_all [sameBound, Float64.eq_symm]

theorem sameBound_trans {a b c : Option Float64} (h : sameBound a b = true)
    (h' : sameBound b c = true) : sameBound a c = true := by
  cases a <;> cases b <;> cases c <;> simp_all [sameBound]
  exact Float64.eq_trans h h'

theorem Threshold.equal_symm {s t : Threshold} (h : s.equal t = true) : t.equal s = true := by
  simp only [equal, Bool.and_eq_true, beq_iff_eq] at h ⊢
  exact ⟨⟨⟨sameBound_symm h.1.1.1, sameBound_symm h.1.1.2⟩, h.1.2.symm⟩, h.2.symm⟩

theorem Threshold.equal_trans {s t u : Threshold} (h : s.equal t = true) (h' : t.equal u = true) :
    s.equal u = true := by
  simp only [equal, Bool.and_eq_true, beq_iff_eq] at h h' ⊢
  exact ⟨⟨⟨sameBound_trans h.1.1.1 h'.1.1.1, sameBound_trans h.1.1.2 h'.1.1.2⟩,
    h.1.2.trans h'.1.2⟩, h.2.trans h'.2⟩

/-- Two claims on one reading say the same of it. -/
def Claim.Same (a b : Claim) : Prop := a.key = b.key → a.band.equal b.band = true

instance (a b : Claim) : Decidable (a.Same b) := inferInstanceAs (Decidable (_ → _))

instance : Std.Symm Claim.Same := ⟨fun _ _ h heq => Threshold.equal_symm (h heq.symm)⟩

/-- Wherever two claims are on one reading, their bands say the same. -/
def Agree (cs : List Claim) : Prop := cs.Pairwise Claim.Same

instance (cs : List Claim) : Decidable (Agree cs) := inferInstanceAs (Decidable (List.Pairwise _ cs))

/-- What `checkThresholdConflicts` knows after some claims. -/
structure Conflicts.Reports (s : Conflicts) (cs : List Claim) : Prop where
  /-- The first claim on a reading is found. -/
  find : ∀ key, (s.first.find? fun held => held.key = key) = cs.find? fun c => c.key = key
  /-- A reading is only reported with a report. -/
  seen : s.errs = [] → s.seen = []
  errs : s.errs = [] ↔ Agree cs

theorem Conflicts.Reports.add {s : Conflicts} {cs : List Claim} (h : s.Reports cs) (c : Claim) :
    (s.add c).Reports (cs ++ [c]) := by
  have hagree : Agree (cs ++ [c]) ↔
      Agree cs ∧ ∀ a ∈ cs, a.key = c.key → a.band.equal c.band = true := by
    unfold Agree
    simp [List.pairwise_append, Claim.Same]
  have hfind := h.find c.key
  unfold Conflicts.add
  cases hheld : s.first.find? fun held => held.key = c.key with
  | none =>
      rw [hheld] at hfind
      have hnone : ∀ a ∈ cs, ¬ a.key = c.key := by simpa using hfind.symm
      refine ⟨fun key => ?_, h.seen, ?_⟩
      · dsimp only
        rw [List.find?_append, List.find?_append, h.find key]
      · rw [hagree, ← h.errs]
        exact ⟨fun he => ⟨he, fun a ha hk => absurd hk (hnone a ha)⟩, And.left⟩
  | some held =>
      rw [hheld] at hfind
      have hkey : held.key = c.key := by simpa using List.find?_some hheld
      have hmem : held ∈ cs := List.mem_of_find?_eq_some hfind.symm
      -- the first claim on a reading stays the first
      have hstays : ∀ key, (s.first.find? fun held => held.key = key) =
          (cs ++ [c]).find? fun c => c.key = key := by
        intro key
        rw [List.find?_append, h.find key]
        by_cases hck : c.key = key
        · rw [← hck, ← hfind]
          rfl
        · simp [hck]
      dsimp only
      split
      · rename_i hequal
        refine ⟨hstays, h.seen, ?_⟩
        rw [hagree, ← h.errs]
        refine ⟨fun he => ⟨he, fun a ha hak => ?_⟩, And.left⟩
        -- both agree with the first claim, so they agree with each other
        have hcs := h.errs.mp he
        by_cases hah : a = held
        · rw [hah]
          exact hequal
        · have hpair : a.Same held := List.Pairwise.forall hcs ha hmem hah
          exact Threshold.equal_trans (hpair (hak.trans hkey.symm)) hequal
      · rename_i hequal
        have hnot : ¬ Agree (cs ++ [c]) := fun ha =>
          hequal ((hagree.mp ha).2 held hmem hkey)
        split
        · rename_i hseen
          refine ⟨hstays, h.seen, ?_⟩
          have hne : s.errs ≠ [] := fun he => by simp [h.seen he] at hseen
          exact ⟨fun he => absurd he hne, fun ha => absurd ha hnot⟩
        · refine ⟨hstays, fun he => absurd he (by simp), ?_⟩
          exact ⟨fun he => absurd he (by simp), fun ha => absurd ha hnot⟩

theorem Conflicts.Reports.foldl {s : Conflicts} {cs : List Claim} (h : s.Reports cs)
    (more : List Claim) : (more.foldl Conflicts.add s).Reports (cs ++ more) := by
  induction more generalizing s cs with
  | nil =>
      rw [List.append_nil]
      exact h
  | cons c more ih =>
      have := ih (h.add c)
      rwa [List.append_assoc, List.singleton_append] at this

/-- **No conflict is found exactly where the bands agree.** -/
theorem checkThresholdConflicts_eq_nil_iff {widgets : List Widget} :
    checkThresholdConflicts widgets = [] ↔ Agree (claims widgets) := by
  have hempty : ({} : Conflicts).Reports [] :=
    ⟨fun _ => rfl, fun _ => rfl, ⟨fun _ => List.Pairwise.nil, fun _ => rfl⟩⟩
  unfold checkThresholdConflicts
  rw [sortErrors_eq_nil_iff, (hempty.foldl (claims widgets)).errs, List.nil_append]

end SnmpLens.Presets
