import Mathlib.Algebra.GroupWithZero.Nat
import SnmpLens.Events.Event
import SnmpLens.Lib.Strings
import SnmpLens.Lib.Substring

/-!
# What a preset is

The data of `pkg/preset`, and the checks all of its parts share: a label is bounded,
and an object identifier is one that can be sent. A preset is read from a file somebody
else wrote, so every text of it is any sequence of octets. A JSON object (`labels`,
`oidLabels`) is its entries, in the order in which Go comes upon them.

Of `float64` only the comparisons are computed; how two are added and how one is printed
is passed in.
-/

namespace SnmpLens.Events.Float64

/-- Go's `==` on `float64`. -/
def eq (x y : Float64) : Bool := !x.isNaN && !y.isNaN && x.key == y.key

/-- Go's `<=` on `float64`. -/
def le (x y : Float64) : Bool := x.lt y || x.eq y

theorem eq_symm {x y : Float64} (h : x.eq y = true) : y.eq x = true := by
  simp only [eq, Bool.and_eq_true, Bool.not_eq_true', beq_iff_eq] at h ⊢
  exact ⟨⟨h.1.2, h.1.1⟩, h.2.symm⟩

theorem eq_trans {x y z : Float64} (h : x.eq y = true) (h' : y.eq z = true) : x.eq z = true := by
  simp only [eq, Bool.and_eq_true, Bool.not_eq_true', beq_iff_eq] at h h' ⊢
  exact ⟨⟨h.1.1, h'.1.2⟩, h.2.trans h'.2⟩

end SnmpLens.Events.Float64

namespace SnmpLens.Presets

open Utf8 Strings Events

/-- What the language does with `float64` besides comparing. -/
structure Floats where
  add : Float64 → Float64 → Float64
  /-- `strconv.FormatFloat(v, 'g', -1, 64)`. -/
  trimFloat : Float64 → Octets

/-! ## The data -/

/-- `Match`: which devices a preset is for. -/
structure Match where
  sysObjectIDPrefix : List Octets := []
  vendor : Octets := []
deriving DecidableEq, Repr

/-- `Discover`: the column a widget's instances come from. -/
structure Discover where
  walk : Octets
  /-- 0 for `maxDiscoveredPerWidget`. -/
  max : Int := 0
deriving DecidableEq, Repr

/-- `Instance`: one row a walk found. -/
structure Instance where
  suffix : Octets
  label : Octets
deriving DecidableEq, Repr

/-- `Threshold`: the band a widget's readings should stay inside. -/
structure Threshold where
  min : Option Float64 := none
  max : Option Float64 := none
  forSeconds : Int := 0
  alertEnabled : Option Bool := none
deriving DecidableEq, Repr

/-- `Shape`: one part of a drawing. -/
structure Shape where
  type : Octets
  x : Float64
  y : Float64
  w : Float64 := ⟨0⟩
  h : Float64 := ⟨0⟩
  x2 : Float64 := ⟨0⟩
  y2 : Float64 := ⟨0⟩
  oid : Octets := []
  text : Octets := []
deriving DecidableEq, Repr

/-- `Map`: what a map widget draws. -/
structure Map where
  background : Octets := []
  aspect : Float64 := ⟨0⟩
  shapes : List Shape
deriving DecidableEq, Repr

/-- `Layout`: where a widget sits on the grid. -/
structure Layout where
  x : Int
  y : Int
  w : Int
  h : Int := 0
deriving DecidableEq, Repr

/-- `Widget`: one tile. -/
structure Widget where
  kind : Octets
  title : Octets
  oids : List Octets
  unit : Octets := []
  labels : List (Octets × Octets) := []
  discover : Option Discover := none
  oidLabels : List (Octets × Octets) := []
  threshold : Option Threshold := none
  map : Option Map := none
  layout : Option Layout := none
deriving DecidableEq, Repr

/-- `Preset`: one dashboard. -/
structure Preset where
  formatVersion : Int
  name : Octets
  author : Octets := []
  description : Octets := []
  match_ : Match := {}
  intervalSec : Int
  widgets : List Widget
deriving DecidableEq, Repr

/-- `Error`: one reason a preset was refused. -/
structure Error where
  field : Octets
  message : Octets
  args : List (Octets × Octets) := []
deriving DecidableEq, Repr

def errf (field : Octets) (msg : String) (args : List (String × Octets)) : Error where
  field := field
  message := octets ("preset.err." ++ msg)
  args := args.map fun a => (octets a.1, a.2)

/-! ## The vocabulary -/

def kindValue : Octets := octets "value"
def kindRate : Octets := octets "rate"
def kindChart : Octets := octets "chart"
def kindStatus : Octets := octets "status"
def kindGrid : Octets := octets "grid"
def kindMap : Octets := octets "map"

/-- `widgetKinds`: every kind, and how many readings it can show. -/
def widgetKinds : List (Octets × Nat) :=
  [(kindValue, 1), (kindRate, 1), (kindStatus, 1), (kindChart, 8), (kindGrid, 96), (kindMap, 96)]

/-- `widgetDoc`: the `MaxOIDs` of a kind. -/
def widgetDoc (kind : Octets) : Option Nat := widgetKinds.lookup kind

/-- **Every kind shows at least one reading**, so that none is without a limit. -/
theorem pos_of_widgetDoc {kind : Octets} {maxOIDs : Nat} (h : widgetDoc kind = some maxOIDs) :
    0 < maxOIDs := by
  have hall : ∀ d ∈ widgetKinds, 0 < d.2 := by decide
  obtain ⟨before, after, hsplit, _⟩ := List.lookup_eq_some_iff.mp h
  exact hall (kind, maxOIDs) (by rw [hsplit]; simp)

def kindTakesLabels (kind : Octets) : Bool :=
  kind == kindStatus || kind == kindGrid || kind == kindMap

/-! ## Bounds -/

/-- `FormatVersion`. -/
def currentVersion : Int := 1

def maxOIDsPerPreset : Nat := 500
def maxWidgets : Nat := 40
def minIntervalSec : Int := 5
def maxIntervalSec : Int := 86400
def maxTextLen : Nat := 120
def maxDescriptionLen : Nat := 600
def maxOIDDepth : Nat := 128
def maxSubIdentifier : Nat := 4294967295

/-! ## Text -/

/-- `utf8.RuneCountInString`. -/
def runeCount (s : Octets) : Nat := (runes s.length s).length

/-- Where the rune number `n` begins. -/
def runeOffset : Nat → Octets → Nat
  | 0, _ => 0
  | n + 1, s => let size := (decodeRune s).2; size + runeOffset n (s.drop size)

/-- `clip`: a value as it stands in a message, cut at a rune. -/
def clip (s : Octets) : Octets :=
  if runeCount s ≤ 40 then s else s.take (runeOffset 40 s) ++ octets "…"

def checkBounded (field s : Octets) (max : Nat) : List Error :=
  if s = [] then [] else
    (if max < runeCount s then
      [errf field "tooLong" [("found", formatUint (runeCount s)), ("max", formatUint max)]]
    else []) ++
    (if (runes s.length s).any fun r => r.toNat < 0x20 || r.toNat == 0x7f then
      [errf field "controlCharacter" []]
    else [])

def checkText (field s : Octets) : List Error := checkBounded field s maxTextLen

def checkProse (field s : Octets) : List Error := checkBounded field s maxDescriptionLen

/-! ## Object identifiers -/

/-- `numericOID`: numbers between dots, at least two, and perhaps a dot in front. -/
def numericOID (s : Octets) : Bool :=
  let arcs := (trimPrefix 46 s).splitOn 46
  2 ≤ arcs.length && arcs.all fun a => a ≠ [] && a.all isDigit

def instancePlaceholder : Octets := octets "\x7b#\x7d"

/-- `hasPlaceholder`: whether this is a template rather than an address. -/
def hasPlaceholder (oid : Octets) : Bool := decide (instancePlaceholder <:+: oid)

/-- `strings.ReplaceAll(oid, InstancePlaceholder, suffix)`. -/
def instantiate (suffix oid : Octets) : Octets :=
  Substring.replaceAll instancePlaceholder suffix oid

/-- `normaliseOID`: the form an OID is keyed and polled by. -/
def normaliseOID (oid : Octets) : Octets := trimPrefix 46 oid

/-- What one arc is objected to for. -/
def arcOutOfRange (a : Octets) : Bool :=
  match parseUint 64 a with
  | some n => maxSubIdentifier < n
  | none => true

def checkOID (field oid : Octets) : List Error :=
  if !numericOID oid then [errf field "notAnOid" [("value", clip oid)]]
  else
    let arcs := (trimPrefix 46 oid).splitOn 46
    if maxOIDDepth < arcs.length then
      [errf field "oidTooDeep" [("found", formatUint arcs.length), ("max", formatUint maxOIDDepth)]]
    else if arcs.any arcOutOfRange then [errf field "oidOutOfRange" [("value", clip oid)]]
    else if arcs.head? ≠ some (octets "0") ∧ arcs.head? ≠ some (octets "1") ∧
        arcs.head? ≠ some (octets "2") then
      [errf field "notAnOid" [("value", clip oid)]]
    else []

/-- An object identifier there is nothing to object to in. -/
structure OnWire (oid : Octets) : Prop where
  shape : numericOID oid = true
  depth : ((trimPrefix 46 oid).splitOn 46).length ≤ maxOIDDepth
  range : ∀ a ∈ (trimPrefix 46 oid).splitOn 46, ∃ n, parseUint 64 a = some n ∧ n ≤ maxSubIdentifier
  root : ((trimPrefix 46 oid).splitOn 46).head? ∈
    [some (octets "0"), some (octets "1"), some (octets "2")]

theorem arcOutOfRange_eq_false {a : Octets} :
    arcOutOfRange a = false ↔ ∃ n, parseUint 64 a = some n ∧ n ≤ maxSubIdentifier := by
  unfold arcOutOfRange
  cases parseUint 64 a with
  | none => simp
  | some n => simp

/-- **An OID is accepted under any field or under none.** -/
theorem checkOID_eq_nil_iff {field oid : Octets} : checkOID field oid = [] ↔ OnWire oid := by
  have hmem : ∀ x : Option Octets, x ∈ [some (octets "0"), some (octets "1"), some (octets "2")] ↔
      ¬ (x ≠ some (octets "0") ∧ x ≠ some (octets "1") ∧ x ≠ some (octets "2")) := by
    intro x
    simp only [List.mem_cons, List.not_mem_nil, or_false]
    tauto
  unfold checkOID
  dsimp only
  constructor
  · intro h
    split at h
    · cases h
    · rename_i hshape
      split at h
      · cases h
      · rename_i hdepth
        split at h
        · cases h
        · rename_i hrange
          split at h
          · cases h
          · rename_i hroot
            refine ⟨by simpa using hshape, by omega, fun a ha => ?_, (hmem _).mpr hroot⟩
            have := List.any_eq_false.mp (Bool.not_eq_true _ ▸ hrange) a ha
            exact arcOutOfRange_eq_false.mp (by simpa using this)
  · intro h
    have hrange : ¬ ((trimPrefix 46 oid).splitOn 46).any arcOutOfRange = true := by
      rw [Bool.not_eq_true, List.any_eq_false]
      intro a ha
      rw [arcOutOfRange_eq_false.mpr (h.range a ha)]
      simp
    have hdepth : ¬ maxOIDDepth < ((trimPrefix 46 oid).splitOn 46).length := by
      have := h.depth
      omega
    rw [if_neg (by simp [h.shape]), if_neg hdepth, if_neg hrange,
      if_neg ((hmem _).mp h.root)]

theorem mem_trimPrefix {a b : UInt8} {s : Octets} (h : b ∈ s) : b = a ∨ b ∈ trimPrefix a s := by
  cases s with
  | nil => cases h
  | cons c rest =>
      by_cases hc : c = a
      · simp only [trimPrefix, if_pos hc]
        exact (List.mem_cons.mp h).imp_left fun hb => hb.trans hc
      · simp only [trimPrefix, if_neg hc]
        exact .inr h

theorem mem_numericOID {oid : Octets} (h : numericOID oid = true) {b : UInt8} (hb : b ∈ oid) :
    b = 46 ∨ isDigit b = true := by
  rcases mem_trimPrefix hb with hb | hb
  · exact .inl hb
  · rcases mem_splitOn hb with hb | ⟨part, hpart, hb⟩
    · exact .inl hb
    · unfold numericOID at h
      simp only [Bool.and_eq_true, List.all_eq_true] at h
      exact .inr ((h.2 part hpart).2 b hb)

/-- **What can be sent is no template.** -/
theorem OnWire.hasPlaceholder {oid : Octets} (h : OnWire oid) : hasPlaceholder oid = false := by
  have hbrace : (123 : UInt8) ∈ instancePlaceholder := by decide
  refine decide_eq_false fun hin => ?_
  have := mem_numericOID h.shape (hin.subset hbrace)
  exact absurd this (by decide)

theorem OnWire.normaliseOID_ne_nil {oid : Octets} (h : OnWire oid) : normaliseOID oid ≠ [] := by
  intro hnil
  have hshape := h.shape
  unfold numericOID at hshape
  unfold normaliseOID at hnil
  rw [hnil] at hshape
  cases hshape

end SnmpLens.Presets
