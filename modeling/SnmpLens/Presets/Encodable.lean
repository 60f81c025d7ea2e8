import SnmpLens.Presets.Model
import SnmpLens.Simulator.Oid

/-!
# What an OID of a preset can carry

`checkOID` of `pkg/preset/preset.go` is to accept what SNMP can carry, which `parseOID` of the
simulator has a rule more for: BER packs the first two arcs into one sub-identifier, so below a
first arc of two the second is below forty. `checkOID` does not look at the second arc, and it
looks at the first one as text, where `01` is no `1`. The two agree where the first arc is a
single digit exactly when it may stand before the second (`checkOID_exact_iff`).
-/

namespace SnmpLens.Presets

open Utf8 Strings Simulator

/-! ## The two readings -/

/-- The arcs of an OID, as they are written. -/
def arcTexts (oid : Octets) : List Octets := (trimPrefix 46 oid).splitOn 46

/-- The arcs a numeric OID stands for. -/
def arcValues (oid : Octets) : Oid := (arcTexts oid).map value

/-- What SNMP can carry. -/
structure Carried (o : Oid) : Prop where
  two_le : 2 ≤ o.length
  depth : o.length ≤ 128
  range : ∀ a ∈ o, a < 2 ^ 32
  root : ∀ x y rest, o = x :: y :: rest → x ≤ 2 ∧ (x < 2 → y < 40)

/-- What is accepted can be carried, and is what the simulator reads; and a numeric OID that can
be carried is accepted. -/
structure Exact (field oid : Octets) : Prop where
  accepted : checkOID field oid = [] →
    Carried (arcValues oid) ∧ parseOID oid = .ok (arcValues oid)
  complete : numericOID oid = true → Carried (arcValues oid) → checkOID field oid = []

/-- The first arc is one digit exactly where it may stand before the second one. -/
def OneDigitFirst (oid : Octets) : Prop :=
  ∀ first second rest, arcTexts oid = first :: second :: rest → (value first ≤ 2) →
    (first.length = 1 ↔ value first = 2 ∨ value second < 40)

/-- The arcs are few enough and small enough for an OID. -/
def InRange (oid : Octets) : Prop :=
  (arcTexts oid).length ≤ 128 ∧ ∀ a ∈ arcTexts oid, value a < 2 ^ 32

variable {field oid : Octets}

theorem numericOID_iff : numericOID oid = true ↔
    2 ≤ (arcTexts oid).length ∧ ∀ a ∈ arcTexts oid, a ≠ [] ∧ a.all isDigit = true := by
  unfold numericOID arcTexts
  simp only [Bool.and_eq_true, decide_eq_true_eq, List.all_eq_true]

theorem parseUint_digits {bits : Nat} {a : Octets} (h : a ≠ [] ∧ a.all isDigit = true) :
    parseUint bits a = if value a < 2 ^ bits then some (value a) else none := by
  unfold parseUint
  rw [h.2]
  simp [h.1]

theorem mapM_parseUint_iff {bits : Nat} {parts : List Octets} {o : Oid}
    (h : ∀ a ∈ parts, a ≠ [] ∧ a.all isDigit = true) :
    parts.mapM (parseUint bits) = some o ↔
      (∀ a ∈ parts, value a < 2 ^ bits) ∧ o = parts.map value := by
  induction parts generalizing o with
  | nil => simp [eq_comm]
  | cons a parts ih =>
      have hparts := fun o => @ih o fun x hx => h x (List.mem_cons_of_mem a hx)
      rw [List.mapM_cons, parseUint_digits (h a List.mem_cons_self), List.forall_mem_cons,
        List.map_cons]
      by_cases hlt : value a < 2 ^ bits
      · rw [if_pos hlt, Option.bind_eq_bind, Option.bind_some, Option.bind_eq_bind,
          Option.bind_eq_some_iff]
        constructor
        · rintro ⟨o', ho', heq⟩
          obtain ⟨hrange, rfl⟩ := (hparts o').mp ho'
          exact ⟨⟨hlt, hrange⟩, (Option.some.inj heq).symm⟩
        · rintro ⟨⟨_, hrange⟩, rfl⟩
          exact ⟨_, (hparts _).mpr ⟨hrange, rfl⟩, rfl⟩
      · rw [if_neg hlt]
        constructor
        · intro hnone
          cases hnone
        · intro hall
          exact absurd hall.1.1 hlt

theorem trimSpace_numeric (h : numericOID oid = true) : trimSpace oid = oid := by
  have hsolid : ∀ b ∈ oid, Solid b := by
    intro b hb
    rcases mem_numericOID h hb with rfl | hdigit
    · exact solid_of_visible (by decide) (by decide)
    · have hrange := isDigit_iff.mp hdigit
      exact solid_of_visible (by omega) (by omega)
  exact trimSpace_eq_self (fun b hb => hsolid b (List.mem_of_mem_head? hb))
    fun b hb => hsolid b (List.mem_of_mem_getLast? hb)

/-- **A numeric OID is read as the arcs it stands for**, where it is in range. -/
theorem parseArcs_numeric {o : Oid} (h : numericOID oid = true) :
    parseArcs oid = .ok o ↔ InRange oid ∧ o = arcValues oid := by
  obtain ⟨htwo, hdigits⟩ := numericOID_iff.mp h
  have hne : ¬ (trimPrefix 46 oid).isEmpty = true := by
    intro hempty
    rw [List.isEmpty_iff] at hempty
    unfold arcTexts at htwo
    rw [hempty] at htwo
    exact absurd htwo (by decide)
  unfold parseArcs
  rw [trimSpace_numeric h]
  dsimp only
  rw [if_neg hne]
  by_cases hdepth : (arcTexts oid).length ≤ 128
  · have hfew : ¬ maxArcs < ((trimPrefix 46 oid).splitOn 46).length := Nat.not_lt.mpr hdepth
    have hread := @mapM_parseUint_iff 32 (arcTexts oid) o hdigits
    rw [if_neg hfew]
    constructor
    · intro hok
      split at hok
      · rename_i out hout
        obtain rfl := Except.ok.inj hok
        exact ⟨⟨hdepth, (hread.mp hout).1⟩, (hread.mp hout).2⟩
      · cases hok
    · rintro ⟨hrange, heq⟩
      have hout : ((trimPrefix 46 oid).splitOn 46).mapM (parseUint 32) = some o :=
        hread.mpr ⟨hrange.2, heq⟩
      rw [hout]
  · have hmany : maxArcs < ((trimPrefix 46 oid).splitOn 46).length := Nat.lt_of_not_le hdepth
    rw [if_pos hmany]
    refine iff_of_false ?_ (fun hrange => hdepth hrange.1.1)
    intro hok
    cases hok

theorem parseOID_of_carried {o : Oid} (harcs : parseArcs oid = .ok o) (h : Carried o) :
    parseOID oid = .ok o := by
  unfold parseOID
  rw [harcs]
  match o, h with
  | [], h => exact absurd h.two_le (by decide)
  | [_], h => exact absurd h.two_le (by simp)
  | x :: y :: rest, h =>
      obtain ⟨hroot, hbelow⟩ := h.root x y rest rfl
      show (if 2 < x ∨ (x < 2 ∧ 40 ≤ y) then _ else _) = _
      rw [if_neg (by omega)]

theorem exists_arcs (h : numericOID oid = true) :
    ∃ first second rest, arcTexts oid = first :: second :: rest := by
  obtain ⟨htwo, _⟩ := numericOID_iff.mp h
  match harcs : arcTexts oid, htwo with
  | [], htwo => cases htwo
  | [_], htwo => exact absurd htwo (by simp)
  | first :: second :: rest, _ => exact ⟨first, second, rest, rfl⟩

section

variable {first second : Octets} {rest : List Octets}

theorem carried_iff (harcs : arcTexts oid = first :: second :: rest) :
    Carried (arcValues oid) ↔
      InRange oid ∧ value first ≤ 2 ∧ (value first < 2 → value second < 40) := by
  have hvalues : arcValues oid = value first :: value second :: rest.map value := by
    unfold arcValues
    rw [harcs]
    rfl
  have hlength : (arcValues oid).length = (arcTexts oid).length := List.length_map _
  constructor
  · intro hcarried
    refine ⟨⟨hlength ▸ hcarried.depth, ?_⟩, hcarried.root _ _ _ hvalues⟩
    intro a ha
    exact hcarried.range _ (List.mem_map_of_mem ha)
  · rintro ⟨⟨hdepth, hrange⟩, hroot⟩
    refine ⟨by rw [hvalues]; simp, by omega, ?_, ?_⟩
    · intro n hn
      obtain ⟨a, ha, rfl⟩ := List.mem_map.mp hn
      exact hrange a ha
    · intro x y more heq
      rw [hvalues] at heq
      obtain ⟨rfl, hmore⟩ := List.cons.inj heq
      obtain ⟨rfl, _⟩ := List.cons.inj hmore
      exact hroot

theorem oneDigitFirst_iff (harcs : arcTexts oid = first :: second :: rest) :
    OneDigitFirst oid ↔ (value first ≤ 2 →
      (first.length = 1 ↔ value first = 2 ∨ value second < 40)) := by
  constructor
  · exact fun h => h first second rest harcs
  · intro h first' second' rest' heq
    rw [harcs] at heq
    obtain ⟨rfl, hrest⟩ := List.cons.inj heq
    obtain ⟨rfl, _⟩ := List.cons.inj hrest
    exact h

end

/-! ## What is accepted -/

theorem root_iff {a : Octets} (h : a ≠ [] ∧ a.all isDigit = true) :
    (a = octets "0" ∨ a = octets "1" ∨ a = octets "2") ↔ a.length = 1 ∧ value a ≤ 2 := by
  constructor
  · rintro (rfl | rfl | rfl) <;> decide
  · rintro ⟨hone, hle⟩
    obtain ⟨b, rfl⟩ := List.length_eq_one_iff.mp hone
    have hdigit := isDigit_iff.mp (List.all_eq_true.mp h.2 b (List.mem_singleton_self b))
    have hvalue : value [b] = b.toNat - 48 := by
      show 0 * 10 + (b.toNat - 48) = _
      omega
    have hroots : [b] = octets "0" ∨ [b] = octets "1" ∨ [b] = octets "2" := by
      have hcases : b.toNat = 48 ∨ b.toNat = 49 ∨ b.toNat = 50 := by omega
      rcases hcases with hb | hb | hb
      · exact .inl (congrArg (fun x => [x]) (UInt8.toNat_inj.mp (hb.trans (by rfl))))
      · exact .inr (.inl (congrArg (fun x => [x]) (UInt8.toNat_inj.mp (hb.trans (by rfl)))))
      · exact .inr (.inr (congrArg (fun x => [x]) (UInt8.toNat_inj.mp (hb.trans (by rfl)))))
    exact hroots

theorem range_iff {a : Octets} (h : a ≠ [] ∧ a.all isDigit = true) :
    (∃ n, parseUint 64 a = some n ∧ n ≤ maxSubIdentifier) ↔ value a < 2 ^ 32 := by
  have hmax : maxSubIdentifier = 2 ^ 32 - 1 := rfl
  rw [parseUint_digits h]
  constructor
  · rintro ⟨n, hn, hle⟩
    split at hn
    · obtain rfl := Option.some.inj hn
      omega
    · cases hn
  · intro hlt
    refine ⟨value a, if_pos ?_, by omega⟩
    exact Nat.lt_of_lt_of_le hlt (by decide)

theorem onWire_iff (hshape : numericOID oid = true) {first second : Octets} {rest : List Octets}
    (harcs : arcTexts oid = first :: second :: rest) :
    OnWire oid ↔ InRange oid ∧ first.length = 1 ∧ value first ≤ 2 := by
  obtain ⟨_, hdigits⟩ := numericOID_iff.mp hshape
  have hfirst := hdigits first (harcs ▸ List.mem_cons_self)
  have hhead : ((trimPrefix 46 oid).splitOn 46).head? ∈
      [some (octets "0"), some (octets "1"), some (octets "2")] ↔
        first.length = 1 ∧ value first ≤ 2 := by
    rw [show (trimPrefix 46 oid).splitOn 46 = first :: second :: rest from harcs,
      List.head?_cons, ← root_iff hfirst]
    simp
  constructor
  · intro h
    exact ⟨⟨h.depth, fun a ha => (range_iff (hdigits a ha)).mp (h.range a ha)⟩, hhead.mp h.root⟩
  · rintro ⟨⟨hdepth, hrange⟩, hone⟩
    exact ⟨hshape, hdepth, fun a ha => (range_iff (hdigits a ha)).mpr (hrange a ha),
      hhead.mpr hone⟩

/-- **`checkOID` accepts exactly what can be carried**, of a text that is a numeric OID in range,
where its first arc is a single digit exactly when the second one lets it stand; and of every
other text. -/
theorem checkOID_exact_iff (field oid : Octets) :
    Exact field oid ↔ (numericOID oid = true → InRange oid → OneDigitFirst oid) := by
  by_cases hshape : numericOID oid = true
  · obtain ⟨first, second, rest, harcs⟩ := exists_arcs hshape
    have hcarried := carried_iff harcs
    have haccepted : checkOID field oid = [] ↔ _ :=
      checkOID_eq_nil_iff.trans (onWire_iff hshape harcs)
    rw [oneDigitFirst_iff harcs]
    constructor
    · rintro ⟨hsound, hcomplete⟩ _ hrange hroot
      constructor
      · intro hone
        have hcan := (hsound (haccepted.mpr ⟨hrange, hone, hroot⟩)).1
        have hbelow := (hcarried.mp hcan).2.2
        omega
      · intro hstands
        have hcan := hcarried.mpr ⟨hrange, hroot, by omega⟩
        exact (haccepted.mp (hcomplete hshape hcan)).2.1
    · intro h
      constructor
      · intro hnil
        obtain ⟨hrange, hone, hroot⟩ := haccepted.mp hnil
        have hstands := (h hshape hrange hroot).mp hone
        have hcan := hcarried.mpr ⟨hrange, hroot, by omega⟩
        have hread := (parseArcs_numeric hshape).mpr ⟨hrange, rfl⟩
        exact ⟨hcan, parseOID_of_carried hread hcan⟩
      · intro _ hcan
        obtain ⟨hrange, hroot, hbelow⟩ := hcarried.mp hcan
        exact haccepted.mpr ⟨hrange, (h hshape hrange hroot).mpr (by omega), hroot⟩
  · refine iff_of_true ⟨?_, fun h => absurd h hshape⟩ (fun h => absurd h hshape)
    intro hnil
    exact absurd (checkOID_eq_nil_iff.mp hnil).shape hshape

/-! ### A second arc of forty, and a first arc with a zero in front -/

theorem checkOID_not_exact :
    ¬ Exact [] (octets "1.40.6") ∧ ¬ Exact [] (octets "01.3.6") := by
  constructor
  · intro h
    exact absurd (h.accepted (by decide)).2 (by decide)
  · intro h
    have hvalues : arcValues (octets "01.3.6") = [1, 3, 6] := by decide
    have hcarried : Carried (arcValues (octets "01.3.6")) := by
      rw [hvalues]
      refine ⟨by decide, by decide, by decide, ?_⟩
      intro x y rest heq
      obtain ⟨rfl, hrest⟩ := List.cons.inj heq
      obtain ⟨rfl, _⟩ := List.cons.inj hrest
      decide
    exact absurd (h.complete (by decide) hcarried) (by decide)

end SnmpLens.Presets
