import SnmpLens.Lib.Prefix
import SnmpLens.Lib.Strings

/-!
# Object identifiers

`pkg/simulator/oid.go`. An object identifier is its arcs, compared arc by arc and
never as text: `compare` is the lexicographic order, in which a prefix comes before
everything under it.
-/

namespace SnmpLens.Simulator

open Utf8 Strings

/-- `oid`: its arcs, each a `uint32`. -/
abbrev Oid := List Nat

def maxArcs : Nat := 128

/-- What there is to object to in the text of an object identifier. -/
inductive OidError where
  | empty
  | tooMany (text : Octets)
  | notASubIdentifier (text : Octets)
  | tooFew (text : Octets)
  /-- BER packs the first two arcs into one sub-identifier. -/
  | noOidStarts (text : Octets)
deriving DecidableEq, Repr

/-- `parseArcs`: a name a manager sent, only to find its place. -/
def parseArcs (s : Octets) : Except OidError Oid :=
  let t := trimPrefix 46 (trimSpace s)
  if t.isEmpty then .error .empty
  else
    let parts := t.splitOn 46
    if maxArcs < parts.length then .error (.tooMany s)
    else
      match parts.mapM (parseUint 32) with
      | some out => .ok out
      | none => .error (.notASubIdentifier s)

/-- `parseOID`: the name of an object, which must be one BER can carry. -/
def parseOID (s : Octets) : Except OidError Oid := do
  let out ← parseArcs s
  match out with
  | x :: y :: _ => if 2 < x ∨ (x < 2 ∧ 40 ≤ y) then .error (.noOidStarts s) else .ok out
  | _ => .error (.tooFew s)

namespace Oid

/-- `String`: every arc behind a dot. -/
def string (o : Oid) : Octets := o.flatMap fun a => 46 :: formatUint a

/-- `hasPrefix`: whether `o` lies under `p`, or is `p`. -/
def hasPrefix (o p : Oid) : Bool := p.length ≤ o.length && o.take p.length == p

/-- `slices.Compare`. -/
def compare : Oid → Oid → Ordering
  | [], [] => .eq
  | [], _ :: _ => .lt
  | _ :: _, [] => .gt
  | a :: o, b :: p => if a < b then .lt else if b < a then .gt else compare o p

theorem hasPrefix_iff {o p : Oid} : o.hasPrefix p = true ↔ p <+: o := by
  simp only [hasPrefix, Bool.and_eq_true, decide_eq_true_eq, beq_iff_eq]
  constructor
  · intro h
    rw [← h.2]
    exact List.take_prefix _ _
  · intro h
    exact ⟨h.length_le, (List.prefix_iff_eq_take.mp h).symm⟩

theorem compare_cons_self (a : Nat) (o p : Oid) : compare (a :: o) (a :: p) = compare o p := by
  simp [compare]

/-- **Comparing arc by arc is the lexicographic order.** -/
theorem compare_lt_iff {o p : Oid} : compare o p = .lt ↔ o < p := by
  induction o generalizing p with
  | nil => cases p <;> simp [compare]
  | cons a o ih =>
      cases p with
      | nil => simp [compare]
      | cons b p =>
          rw [List.cons_lt_cons_iff]
          by_cases hab : a < b
          · simp [compare, hab]
          · by_cases hba : b < a
            · have hne : a ≠ b := by omega
              simp [compare, hab, hba, hne]
            · obtain rfl : a = b := by omega
              rw [compare_cons_self, ih]
              simp

theorem compare_eq_iff {o p : Oid} : compare o p = .eq ↔ o = p := by
  induction o generalizing p with
  | nil => cases p <;> simp [compare]
  | cons a o ih =>
      cases p with
      | nil => simp [compare]
      | cons b p =>
          rw [List.cons.injEq]
          by_cases hab : a < b
          · have hne : a ≠ b := by omega
            simp [compare, hab, hne]
          · by_cases hba : b < a
            · have hne : a ≠ b := by omega
              simp [compare, hab, hba, hne]
            · obtain rfl : a = b := by omega
              rw [compare_cons_self, ih]
              simp

theorem compare_ne_gt_iff {o p : Oid} : compare o p ≠ .gt ↔ o ≤ p := by
  have hlt := compare_lt_iff (o := o) (p := p)
  have heq := compare_eq_iff (o := o) (p := p)
  rw [le_iff_lt_or_eq, ← hlt, ← heq]
  cases compare o p <;> simp

/-! ## Names -/

/-- What a name can carry. -/
structure Fits (o : Oid) : Prop where
  ne_nil : o ≠ []
  length_le : o.length ≤ maxArcs
  arc_lt : ∀ a ∈ o, a < 2 ^ 32

variable {o : Oid}

theorem string_eq (h : o ≠ []) : o.string = 46 :: dotted o := by
  induction o with
  | nil => exact absurd rfl h
  | cons a o ih =>
      have hstring : string (a :: o) = 46 :: formatUint a ++ string o := List.flatMap_cons
      by_cases ho : o = []
      · rw [hstring, ho, dotted_singleton]
        simp [string]
      · rw [hstring, ih ho, dotted_cons a ho, List.cons_append]

variable {s : Octets}

theorem fits_of_parseArcs (h : parseArcs s = .ok o) : o.Fits := by
  unfold parseArcs at h
  dsimp only at h
  split at h
  · cases h
  · split at h
    · cases h
    · rename_i hlen
      split at h
      · rename_i out hout
        obtain rfl := Except.ok.inj h
        have hlength := length_of_mapM hout
        refine ⟨?_, by omega, fun a ha => ?_⟩
        · rintro rfl
          exact absurd (List.length_eq_zero_iff.mp hlength) (List.splitOn_ne_nil _ _)
        · obtain ⟨part, _, hpart⟩ := mem_of_mapM hout ha
          exact lt_of_parseUint hpart
      · cases h

theorem parseArcs_of_parseOID (h : parseOID s = .ok o) :
    parseArcs s = .ok o := by
  unfold parseOID at h
  cases hs : parseArcs s with
  | error err =>
      rw [hs] at h
      exact absurd h (by simp [bind, Except.bind])
  | ok out =>
      rw [hs] at h
      simp only [bind, Except.bind] at h
      split at h
      · split at h
        · cases h
        · rw [Except.ok.inj h]
      · cases h

theorem two_le_of_parseOID (h : parseOID s = .ok o) : 2 ≤ o.length := by
  have harcs := parseArcs_of_parseOID h
  unfold parseOID at h
  rw [harcs] at h
  simp only [bind, Except.bind] at h
  split at h
  · simp
  · cases h

/-- **The name of an object reads back as its OID.** -/
theorem parseArcs_string (h : o.Fits) : parseArcs o.string = .ok o := by
  have hne := h.ne_nil
  have hparts : (o.map formatUint).length ≤ maxArcs := by
    rw [List.length_map]
    exact h.length_le
  unfold parseArcs
  rw [string_eq hne, trimPrefix_dot_dotted]
  dsimp only
  rw [if_neg (by simpa using dotted_ne_nil hne), splitOn_dotted hne, if_neg (by omega),
    mapM_parseUint h.arc_lt]

theorem parseArcs_dotted (h : o.Fits) : parseArcs (dotted o) = .ok o := by
  have hne := h.ne_nil
  have hparts : (o.map formatUint).length ≤ maxArcs := by
    rw [List.length_map]
    exact h.length_le
  unfold parseArcs
  rw [trimSpace_dotted, trimPrefix_dotted]
  dsimp only
  rw [if_neg (by simpa using dotted_ne_nil hne), splitOn_dotted hne, if_neg (by omega),
    mapM_parseUint h.arc_lt]

theorem parseOID_of_parseArcs {s t : Octets} (h : parseOID s = .ok o) (ht : parseArcs t = .ok o) :
    parseOID t = .ok o := by
  have hs := parseArcs_of_parseOID h
  unfold parseOID at h ⊢
  rw [hs] at h
  rw [ht]
  simp only [bind, Except.bind] at h ⊢
  split at h
  · split at h
    · cases h
    · rename_i hstart
      rw [if_neg hstart]
  · cases h

theorem parseOID_of_internet (hstart : o.take 2 = [1, 3]) (hs : parseArcs s = .ok o) :
    parseOID s = .ok o := by
  match o, hstart with
  | [], hstart => cases hstart
  | [_], hstart => cases hstart
  | a :: b :: rest, hstart =>
      obtain ⟨rfl, rfl⟩ : a = 1 ∧ b = 3 := by simpa using hstart
      unfold parseOID
      rw [hs]
      rfl

theorem parseOID_string (h : parseOID s = .ok o) :
    parseOID o.string = .ok o :=
  parseOID_of_parseArcs h (parseArcs_string (fits_of_parseArcs (parseArcs_of_parseOID h)))

theorem parseOID_dotted (h : parseOID s = .ok o) :
    parseOID (dotted o) = .ok o :=
  parseOID_of_parseArcs h (parseArcs_dotted (fits_of_parseArcs (parseArcs_of_parseOID h)))

theorem string_inj {o p : Oid} (ho : o.Fits) (hp : p.Fits) (h : o.string = p.string) : o = p := by
  have hparse := parseArcs_string ho
  rw [h, parseArcs_string hp] at hparse
  exact (Except.ok.inj hparse).symm

end Oid

end SnmpLens.Simulator
