import SnmpLens.Lib.Scan
import SnmpLens.Lib.Utf16

/-!
# What a markup shows

The text of a markup is what is left of it when the tags are taken out and the entities decoded.
Text that is escaped shows as itself, and a tag as nothing.
-/

namespace Html

open Utf16 Scan

def less : UInt16 := unit '<'
def greater : UInt16 := unit '>'
def ampersand : UInt16 := unit '&'

/-- The entities and what they stand for. -/
def entities : List (Units × UInt16) :=
  [(units "&amp;", ampersand), (units "&lt;", less), (units "&gt;", greater),
    (units "&quot;", unit '"')]

/-- A tag, which shows nothing, or an entity. -/
def reference : Finder UInt16
  | [] => none
  | c :: rest =>
      if c = less then some ([], (rest.takeWhile (· ≠ greater)).length + 2)
      else
        (entities.find? fun e => e.1.isPrefixOf (c :: rest)).map fun e => ([e.2], e.1.length)

/-- The text that a markup shows. -/
def textContent (s : Units) : Units := scan reference s

/-- `escapeHtml`, of one unit. -/
def escapeUnit (c : UInt16) : Units :=
  if c = ampersand then units "&amp;"
  else if c = less then units "&lt;"
  else if c = greater then units "&gt;"
  else [c]

def escapeHtml (s : Units) : Units := s.flatMap escapeUnit

/-! ## What shows -/

theorem textContent_nil : textContent [] = [] := rfl

theorem textContent_tag {name : Units} (h : greater ∉ name) (rest : Units) :
    textContent (less :: (name ++ greater :: rest)) = textContent rest := by
  have hname : ∀ c ∈ name, decide (c ≠ greater) = true := by
    intro c hc
    refine decide_eq_true fun heq => h ?_
    rwa [← heq]
  have hfind : reference (less :: (name ++ greater :: rest)) = some ([], name.length + 2) := by
    unfold reference
    dsimp only
    rw [if_pos rfl, List.takeWhile_append_of_pos hname, List.takeWhile_cons_of_neg (by simp),
      List.append_nil]
  unfold textContent
  rw [scan_found (List.cons_ne_nil _ _) (Nat.succ_pos _) hfind, List.nil_append]
  congr 1
  rw [List.drop_succ_cons, List.drop_append, Nat.add_sub_cancel_left]
  rw [List.drop_of_length_le (Nat.le_succ _)]
  rfl

theorem textContent_unit {c : UInt16} (hless : c ≠ less) (hamp : c ≠ ampersand) (rest : Units) :
    textContent (c :: rest) = c :: textContent rest := by
  have hnone : reference (c :: rest) = none := by
    unfold reference
    dsimp only
    rw [if_neg hless, Option.map_eq_none_iff, List.find?_eq_none]
    intro e he hprefix
    have hhead : ∀ e ∈ entities, e.1.head? = some ampersand := by decide
    obtain ⟨t, ht⟩ := List.isPrefixOf_iff_prefix.mp hprefix
    obtain ⟨word, hword⟩ := List.head?_eq_some_iff.mp (hhead e he)
    rw [hword, List.cons_append] at ht
    exact hamp (List.cons.inj ht).1.symm
  exact scan_skip hnone

theorem textContent_entity {e : Units × UInt16} (he : e ∈ entities) (rest : Units) :
    textContent (e.1 ++ rest) = e.2 :: textContent rest := by
  have hfind : reference (e.1 ++ rest) = some ([e.2], e.1.length) ∧ e.1 ≠ [] := by
    revert e
    rw [entities, List.forall_mem_cons, List.forall_mem_cons, List.forall_mem_cons,
      List.forall_mem_singleton]
    exact ⟨⟨rfl, by decide⟩, ⟨rfl, by decide⟩, ⟨rfl, by decide⟩, ⟨rfl, by decide⟩⟩
  unfold textContent
  rw [scan_found (List.append_ne_nil_of_left_ne_nil hfind.2 rest)
    (List.length_pos_iff.mpr hfind.2) hfind.1, List.drop_left]
  rfl

/-- **What is escaped shows as itself.** -/
theorem textContent_escapeHtml (s rest : Units) :
    textContent (escapeHtml s ++ rest) = s ++ textContent rest := by
  induction s with
  | nil => rfl
  | cons c s ih =>
      have hunit : ∀ rest, textContent (escapeUnit c ++ rest) = c :: textContent rest := by
        intro rest
        unfold escapeUnit
        split
        · rename_i hc
          rw [hc]
          exact textContent_entity (e := (units "&amp;", ampersand)) (by decide) rest
        rename_i hamp
        split
        · rename_i hc
          rw [hc]
          exact textContent_entity (e := (units "&lt;", less)) (by decide) rest
        rename_i hless
        split
        · rename_i hc
          rw [hc]
          exact textContent_entity (e := (units "&gt;", greater)) (by decide) rest
        · exact textContent_unit hless hamp rest
      unfold escapeHtml at ih ⊢
      rw [List.flatMap_cons, List.append_assoc, hunit, ih]
      rfl

theorem mem_escapeHtml {s : Units} {c : UInt16} (h : c ∈ escapeHtml s)
    (hc : ∀ e ∈ entities, c ∉ e.1) : c ∈ s := by
  obtain ⟨d, hd, hmem⟩ := List.mem_flatMap.mp h
  unfold escapeUnit at hmem
  split at hmem
  · exact absurd hmem (hc (units "&amp;", ampersand) (by decide))
  split at hmem
  · exact absurd hmem (hc (units "&lt;", less) (by decide))
  split at hmem
  · exact absurd hmem (hc (units "&gt;", greater) (by decide))
  · rw [List.mem_singleton] at hmem
    rwa [hmem]

end Html
