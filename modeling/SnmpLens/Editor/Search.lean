import SnmpLens.Lib.Leftmost
import SnmpLens.Lib.LowerCase

/-!
# Find and replace

`frontend/src/mibeditor/search.js`. What is real is a position where as many units of the text as the
term has are the term in lower case. The slow loop looks at just that. The fast one searches a
lower-cased copy of the text, where a letter may have been mapped as a part of another word than the
term, so its positions are the real ones only where the two agree.
-/

namespace SnmpLens.MibEditor

open Utf16 LowerCase Leftmost

/-! ## The code -/

/-- Whether one more match is taken; there is no limit for `findAllMatches`. -/
def more (limit : Option Nat) (found : Nat) : Bool := limit.all fun limit => decide (found < limit)

/-- The loop over `indexOf`. -/
def indexLoop (hay needle : Units) (limit : Option Nat) : Nat → Nat → Option Nat → List Nat
  | fuel + 1, found, some i =>
      if more limit found then
        i :: indexLoop hay needle limit fuel (found + 1) (indexOf hay needle (i + needle.length))
      else []
  | _, _, _ => []

/-- The loop over the original text. -/
def sliceLoop (t : CaseTable) (hay needle : Units) (size : Nat) (limit : Option Nat) :
    Nat → Nat → Nat → List Nat
  | 0, _, _ => []
  | fuel + 1, found, i =>
      if i + size ≤ hay.length ∧ more limit found then
        if t.toLowerCase ((hay.drop i).take size) = needle then
          i :: sliceLoop t hay needle size limit fuel (found + 1) (i + size)
        else sliceLoop t hay needle size limit fuel found (i + 1)
      else []

def findMatches (t : CaseTable) (hay term : Units) (limit : Option Nat) (caseSensitive : Bool) :
    List Nat :=
  if term = [] then []
  else if caseSensitive then
    indexLoop hay term limit (hay.length + 1) 0 (indexOf hay term 0)
  else
    let lower := t.toLowerCase hay
    let needle := t.toLowerCase term
    if lower.length = hay.length then
      indexLoop lower needle limit (lower.length + 1) 0 (indexOf lower needle 0)
    else sliceLoop t hay needle term.length limit (hay.length + 1) 0 0

def findAllMatches (t : CaseTable) (text term : Units) (caseSensitive : Bool) : List Nat :=
  findMatches t text term none caseSensitive

/-- The loop of `applyReplaceAll`. -/
def replaceLoop (text : Units) (termLength : Nat) (replacement : Units) : Nat → List Nat → Units
  | last, [] => text.drop last
  | last, i :: rest =>
      (text.take i).drop last ++ replacement ++
        replaceLoop text termLength replacement (i + termLength) rest

def applyReplaceAll (text : Units) (found : List Nat) (termLength : Nat) (replacement : Units) :
    Units :=
  if found = [] ∨ termLength = 0 then text
  else replaceLoop text termLength replacement 0 found

/-! ## What the loops find -/

section

variable {hay needle : Units} {m : Nat}

theorem prefix_room (hneedle : needle ≠ []) {i : Nat} (h : needle <+: hay.drop i) :
    i + needle.length ≤ hay.length := by
  have hle := h.length_le
  have hpos := List.length_pos_iff.mpr hneedle
  rw [List.length_drop] at hle
  omega

theorem indexLoop_from (hneedle : needle ≠ []) (fuel found : Nat) {start : Nat}
    (hfuel : hay.length < start + fuel) :
    From (fun i => needle <+: hay.drop i) needle.length start
      (indexLoop hay needle none fuel found (indexOf hay needle start)) := by
  induction fuel generalizing start found with
  | zero =>
      refine From.nil fun i hi h => ?_
      have := prefix_room hneedle h
      omega
  | succ fuel ih =>
      have hpos := List.length_pos_iff.mpr hneedle
      unfold indexLoop indexOf
      cases hindex : indexFrom needle start (hay.drop start) with
      | none =>
          refine From.nil fun i hi h => ?_
          refine indexFrom_none hindex (i - start) ?_
          rwa [List.drop_drop, Nat.add_sub_cancel' hi]
      | some m =>
          obtain ⟨k, rfl, hprefix, hfirst⟩ := indexFrom_some hindex
          rw [List.drop_drop] at hprefix
          refine From.cons (ih (found + 1) (by omega)) (Nat.le_add_right start k) hprefix ?_
          intro i hi hlt h
          refine hfirst (i - start) (by omega) ?_
          rwa [List.drop_drop, Nat.add_sub_cancel' hi]

end

section

variable (t : CaseTable) (text term : Units)

/-- A position of the text where the units of the term's length are the term in lower case. -/
def Real (i : Nat) : Prop :=
  i + term.length ≤ text.length ∧
    t.toLowerCase ((text.drop i).take term.length) = t.toLowerCase term

/-- A position of the lower-cased text where the lower-cased term stands. -/
def Stands (i : Nat) : Prop := t.toLowerCase term <+: (t.toLowerCase text).drop i

variable {t text term}

theorem sliceLoop_from (hterm : term ≠ []) (fuel found : Nat) {i : Nat}
    (hfuel : text.length < i + fuel) :
    From (Real t text term) term.length i
      (sliceLoop t text (t.toLowerCase term) term.length none fuel found i) := by
  have hpos := List.length_pos_iff.mpr hterm
  induction fuel generalizing i found with
  | zero => exact From.nil fun j hj h => by have := h.1; omega
  | succ fuel ih =>
      unfold sliceLoop
      split
      · rename_i hroom
        split
        · rename_i hreal
          exact From.cons (ih (found + 1) (by omega)) (Nat.le_refl i) ⟨hroom.1, hreal⟩
            fun j hj hlt => absurd hlt (Nat.not_lt.mpr hj)
        · rename_i hnot
          exact From.skip (ih found (by omega)) fun h => hnot h.2
      · rename_i hroom
        refine From.nil fun j hj h => ?_
        have hmany : i + term.length ≤ text.length := by
          have := h.1
          omega
        exact hroom ⟨hmany, rfl⟩

theorem needle_ne_nil (hterm : term ≠ []) : t.toLowerCase term ≠ [] := by
  intro hnil
  have hle := t.length_le term
  rw [hnil, List.length_nil] at hle
  exact hterm (List.length_eq_zero_iff.mp (Nat.le_zero.mp hle))

end

/-! ## What is replaced -/

/-- The text in which the spans at the positions, and nothing else, are replaced: what follows from
`start` on. -/
inductive Rewritten (replacement : Units) (size : Nat) : Nat → List Nat → Units → Units → Prop
  | done (start : Nat) (rest : Units) : Rewritten replacement size start [] rest rest
  | span {start : Nat} {found : List Nat} {gap word rest out : Units} :
      word.length = size →
      Rewritten replacement size (start + gap.length + size) found rest out →
      Rewritten replacement size start ((start + gap.length) :: found) (gap ++ word ++ rest)
        (gap ++ replacement ++ out)

theorem replaceLoop_rewritten {text replacement : Units} {size : Nat} {found : List Nat} {start : Nat}
    (hapart : found.Pairwise fun a b => a + size ≤ b) (hstart : ∀ i ∈ found, start ≤ i)
    (hroom : ∀ i ∈ found, i + size ≤ text.length) :
    Rewritten replacement size start found (text.drop start)
      (replaceLoop text size replacement start found) := by
  induction found generalizing start with
  | nil => exact .done start _
  | cons i found ih =>
      rw [List.pairwise_cons] at hapart
      rw [List.forall_mem_cons] at hstart hroom
      have hrest := ih hapart.2 hapart.1 hroom.2
      have hgap : start + ((text.take i).drop start).length = i := by
        rw [List.length_drop, List.length_take]
        omega
      have hword : (((text.drop i).take size)).length = size := by
        rw [List.length_take, List.length_drop]
        omega
      have hsplit : text.drop start =
          (text.take i).drop start ++ (text.drop i).take size ++ text.drop (i + size) := by
        have hinside : start ≤ (text.take i).length := by
          rw [List.length_take]
          omega
        have hfront : text.drop start = (text.take i).drop start ++ text.drop i := by
          rw [← List.drop_append_of_le_length hinside, List.take_append_drop]
        rw [hfront, List.append_assoc, ← List.drop_drop, List.take_append_drop]
      unfold replaceLoop
      rw [hsplit]
      have hspan := @Rewritten.span replacement size start found ((text.take i).drop start) _ _ _ hword
        (hgap.symm ▸ hrest)
      rwa [hgap] at hspan

/-! ## Where the matches are the real ones -/

section

variable (t : CaseTable) (text term : Units)

/-- The positions are the leftmost real ones that do not overlap; an empty term has none. -/
def Matches (found : List Nat) : Prop :=
  if term = [] then found = [] else From (Real t text term) term.length 0 found

/-- The lower-cased text has another length, or the lower-cased term stands in it just where it is
real, at every position that is not inside of an earlier match. -/
def Undisturbed : Prop :=
  term = [] ∨ (t.toLowerCase text).length ≠ text.length ∨
    ∀ i, Visited (Real t text term) term.length i → (Stands t text term i ↔ Real t text term i)

variable {t text term}

theorem fast_from (hterm : term ≠ []) (hlen : (t.toLowerCase text).length = text.length) :
    From (Stands t text term) (t.toLowerCase term).length 0 (findAllMatches t text term false) := by
  unfold findAllMatches findMatches
  dsimp only
  rw [if_neg hterm, if_neg Bool.false_ne_true, if_pos hlen]
  exact indexLoop_from (needle_ne_nil hterm) _ 0 (by omega)

theorem slow_from (hterm : term ≠ []) (hlen : (t.toLowerCase text).length ≠ text.length) :
    From (Real t text term) term.length 0 (findAllMatches t text term false) := by
  unfold findAllMatches findMatches
  dsimp only
  rw [if_neg hterm, if_neg Bool.false_ne_true, if_neg hlen]
  exact sliceLoop_from hterm _ 0 (by omega)

theorem found_apart (hterm : term ≠ []) :
    (findAllMatches t text term false).Pairwise (fun a b => a + term.length ≤ b) ∧
      ∀ i ∈ findAllMatches t text term false, i + term.length ≤ text.length := by
  by_cases hlen : (t.toLowerCase text).length = text.length
  · have hfast := fast_from hterm hlen
    have hle := t.length_le term
    refine ⟨hfast.apart.imp fun hab => by omega, ?_⟩
    intro i hi
    have hroom := prefix_room (needle_ne_nil hterm) (hfast.real i hi)
    omega
  · have hslow := slow_from hterm hlen
    exact ⟨hslow.apart, fun i hi => (hslow.real i hi).1⟩

theorem replaced (replacement : Units) :
    Rewritten replacement term.length 0 (findAllMatches t text term false) text
      (applyReplaceAll text (findAllMatches t text term false) term.length replacement) := by
  by_cases hterm : term = []
  · have hnone : findAllMatches t text term false = [] := if_pos hterm
    rw [hnone]
    exact .done 0 text
  · obtain ⟨hapart, hroom⟩ := @found_apart t text term hterm
    unfold applyReplaceAll
    split
    · rename_i hnothing
      rcases hnothing with hnone | hzero
      · rw [hnone]
        exact .done 0 text
      · exact absurd (List.length_eq_zero_iff.mp hzero) hterm
    · exact replaceLoop_rewritten hapart (fun i _ => Nat.zero_le i) hroom

/-- A term that gets longer is not real in a text that does not. -/
theorem not_real (hlen : (t.toLowerCase text).length = text.length)
    (hterm : (t.toLowerCase term).length ≠ term.length) (i : Nat) : ¬ Real t text term i := by
  intro h
  have hslice := t.length_slice hlen i term.length
  rw [h.2, List.length_take, List.length_drop] at hslice
  have := h.1
  omega

theorem matches_iff_undisturbed :
    Matches t text term (findAllMatches t text term false) ↔ Undisturbed t text term := by
  unfold Matches Undisturbed
  by_cases hterm : term = []
  · rw [if_pos hterm]
    exact ⟨fun _ => .inl hterm, fun _ => if_pos hterm⟩
  rw [if_neg hterm, or_iff_right hterm]
  by_cases hlen : (t.toLowerCase text).length = text.length
  · rw [or_iff_right (not_not_intro hlen)]
    have hfast := fast_from hterm hlen
    by_cases hsize : (t.toLowerCase term).length = term.length
    · rw [hsize] at hfast
      exact hfast.iff_agree
    · have hnone := not_real hlen hsize
      constructor
      · intro hreal i _
        have hnil : findAllMatches t text term false = [] := hreal.eq_nil_iff.mpr hnone
        exact iff_of_false (hfast.eq_nil_iff.mp hnil i) (hnone i)
      · intro hagree
        have hnil := hfast.eq_nil_iff.mpr fun i hi =>
          hnone i ((hagree i (visited_of_none hnone i)).mp hi)
        rw [hnil]
        exact From.nil fun i _ => hnone i
  · exact iff_of_true (slow_from hterm hlen) (.inl hlen)

end

/-- **Replacing everything rewrites the spans that were found and nothing else, and these are the
leftmost real matches exactly where lower-casing does not disturb them.** -/
theorem find_and_replace (t : CaseTable) (text term replacement : Units) :
    Rewritten replacement term.length 0 (findAllMatches t text term false) text
        (applyReplaceAll text (findAllMatches t text term false) term.length replacement) ∧
      (Matches t text term (findAllMatches t text term false) ↔ Undisturbed t text term) :=
  ⟨replaced replacement, matches_iff_undisturbed⟩

/-- **A capital sigma at the end of a word is not found, and a dotted capital I is found where only a
part of what is found would be replaced.** -/
theorem disturbed_matches :
    ¬ Matches letters [0x391, 0x3a3] [0x3a3] (findAllMatches letters [0x391, 0x3a3] [0x3a3] false) ∧
      ¬ Matches letters [0x69, 0x307] [0x130]
        (findAllMatches letters [0x69, 0x307] [0x130] false) := by
  constructor
  · intro h
    have hnone : findAllMatches letters [0x391, 0x3a3] [0x3a3] false = [] := by decide
    unfold Matches at h
    rw [hnone, if_neg (by decide)] at h
    obtain ⟨m, hm, _⟩ := h.covers 1 (Nat.zero_le 1) ⟨by decide, by decide⟩
    cases hm
  · intro h
    have hone : findAllMatches letters [0x69, 0x307] [0x130] false = [0] := by decide
    unfold Matches at h
    rw [hone, if_neg (by decide)] at h
    exact absurd (h.real 0 List.mem_cons_self).2 (by decide)

end SnmpLens.MibEditor
