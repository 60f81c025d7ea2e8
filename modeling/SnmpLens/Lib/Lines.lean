import Mathlib.Data.List.DropRight
import Mathlib.Data.List.Basic

/-!
# The first and the last line of a text

A text is cut at its first separator or at its last. What is cut off in front goes with
the separator, what is cut off behind leaves it, so that taking a whole line out of a
text is the one done to what stands behind it and the other done to what stands before.
A text without the separator is one line, and both leave nothing of it.
-/

namespace Lines

variable {α : Type*} [DecidableEq α] {nl : α} {a b s t : List α}

/-- The text up to the first separator. -/
def first (nl : α) (s : List α) : List α := s.takeWhile (· != nl)

/-- The text behind the last separator. -/
def last (nl : α) (s : List α) : List α := s.rtakeWhile (· != nl)

/-- Without the first line, the separator included. -/
def dropFirst (nl : α) (s : List α) : List α := (s.dropWhile (· != nl)).drop 1

/-- Without the last line, the separator kept. -/
def dropLast (nl : α) (s : List α) : List α := s.rdropWhile (· != nl)

theorem bne_of_not_mem (h : nl ∉ s) : ∀ x ∈ s, (x != nl) = true := by
  intro x hx
  rw [bne_iff_ne]
  rintro rfl
  exact h hx

theorem exists_first (h : nl ∈ s) : ∃ a b, s = a ++ nl :: b ∧ nl ∉ a := by
  induction s with
  | nil => exact absurd h List.not_mem_nil
  | cons x s ih =>
      by_cases hx : x = nl
      · exact ⟨[], s, by rw [hx, List.nil_append], List.not_mem_nil⟩
      · obtain ⟨a, b, rfl, ha⟩ := ih ((List.mem_cons.mp h).resolve_left (Ne.symm hx))
        exact ⟨x :: a, b, rfl, fun hin => (List.mem_cons.mp hin).elim (Ne.symm hx) ha⟩

theorem exists_last (h : nl ∈ s) : ∃ a b, s = a ++ nl :: b ∧ nl ∉ b := by
  obtain ⟨a, b, hs, ha⟩ := exists_first (List.mem_reverse.mpr h)
  refine ⟨b.reverse, a.reverse, ?_, fun hin => ha (List.mem_reverse.mp hin)⟩
  rw [← s.reverse_reverse, hs, List.reverse_append, List.reverse_cons, List.append_assoc,
    List.singleton_append]

theorem first_eq (ha : nl ∉ a) : first nl (a ++ nl :: b) = a := by
  unfold first
  rw [List.takeWhile_append_of_pos (bne_of_not_mem ha), List.takeWhile_cons_of_neg (by simp),
    List.append_nil]

theorem dropFirst_eq (ha : nl ∉ a) : dropFirst nl (a ++ nl :: b) = b := by
  unfold dropFirst
  rw [List.dropWhile_append_of_pos (bne_of_not_mem ha), List.dropWhile_cons_of_neg (by simp),
    List.drop_one, List.tail_cons]

theorem last_eq (hb : nl ∉ b) : last nl (a ++ nl :: b) = b := by
  have hrev : (a ++ nl :: b).reverse = b.reverse ++ nl :: a.reverse := by simp
  unfold last List.rtakeWhile
  rw [hrev]
  have hfirst := @first_eq _ _ nl b.reverse a.reverse fun h => hb (List.mem_reverse.mp h)
  unfold first at hfirst
  rw [hfirst, List.reverse_reverse]

theorem dropLast_eq (hb : nl ∉ b) : dropLast nl (a ++ nl :: b) = a ++ [nl] := by
  have hsplit : dropLast nl (a ++ nl :: b) ++ last nl (a ++ nl :: b) = (a ++ [nl]) ++ b := by
    unfold dropLast last
    rw [List.rdropWhile_append_rtakeWhile, List.append_assoc, List.singleton_append]
  rw [last_eq hb] at hsplit
  exact List.append_cancel_right hsplit

theorem first_of_not_mem (h : nl ∉ s) : first nl s = s :=
  List.takeWhile_eq_self_iff.mpr (bne_of_not_mem h)

theorem last_of_not_mem (h : nl ∉ s) : last nl s = s :=
  List.rtakeWhile_eq_self_iff.mpr (bne_of_not_mem h)

theorem dropFirst_of_not_mem (h : nl ∉ s) : dropFirst nl s = [] := by
  unfold dropFirst
  rw [List.dropWhile_eq_nil_iff.mpr (bne_of_not_mem h), List.drop_nil]

theorem dropLast_of_not_mem (h : nl ∉ s) : dropLast nl s = [] :=
  List.rdropWhile_eq_nil_iff.mpr (bne_of_not_mem h)

/-! ## Two texts, one behind the other -/

theorem first_append_of_mem (h : nl ∈ s) (t : List α) : first nl (s ++ t) = first nl s := by
  obtain ⟨a, b, rfl, ha⟩ := exists_first h
  rw [List.append_assoc, List.cons_append, first_eq ha, first_eq ha]

theorem first_append_of_not_mem (h : nl ∉ s) (t : List α) : first nl (s ++ t) = s ++ first nl t :=
  List.takeWhile_append_of_pos (bne_of_not_mem h)

theorem last_append_of_mem (h : nl ∈ t) (s : List α) : last nl (s ++ t) = last nl t := by
  obtain ⟨a, b, rfl, hb⟩ := exists_last h
  rw [← List.append_assoc, last_eq hb, last_eq hb]

theorem last_append_of_not_mem (h : nl ∉ t) (s : List α) : last nl (s ++ t) = last nl s ++ t := by
  by_cases hs : nl ∈ s
  · obtain ⟨a, b, rfl, hb⟩ := exists_last hs
    have hbt : nl ∉ b ++ t := fun hin => (List.mem_append.mp hin).elim hb h
    rw [List.append_assoc, List.cons_append, last_eq hbt, last_eq hb]
  · have hst : nl ∉ s ++ t := fun hin => (List.mem_append.mp hin).elim hs h
    rw [last_of_not_mem hst, last_of_not_mem hs]

/-! ## How many lines are left -/

theorem count_dropFirst (h : nl ∈ s) : (dropFirst nl s).count nl + 1 = s.count nl := by
  obtain ⟨a, b, rfl, ha⟩ := exists_first h
  rw [dropFirst_eq ha, List.count_append, List.count_eq_zero.mpr ha, List.count_cons_self]
  omega

theorem count_dropLast (s : List α) : (dropLast nl s).count nl = s.count nl := by
  by_cases h : nl ∈ s
  · obtain ⟨a, b, rfl, hb⟩ := exists_last h
    rw [dropLast_eq hb]
    simp only [List.count_append, List.count_cons_self, List.count_nil, List.count_eq_zero.mpr hb]
  · rw [dropLast_of_not_mem h, List.count_nil, List.count_eq_zero.mpr h]

theorem last_dropFirst (h : nl ∈ dropFirst nl s) : last nl (dropFirst nl s) = last nl s := by
  by_cases hs : nl ∈ s
  · obtain ⟨a, b, rfl, ha⟩ := exists_first hs
    rw [dropFirst_eq ha] at h ⊢
    rw [← List.singleton_append, ← List.append_assoc, last_append_of_mem h]
  · rw [dropFirst_of_not_mem hs] at h
    exact absurd h List.not_mem_nil

theorem dropLast_dropFirst_sublist (s : List α) :
    (dropLast nl (dropFirst nl s)).Sublist (dropLast nl s) := by
  by_cases hs : nl ∈ s
  · obtain ⟨a, b, rfl, ha⟩ := exists_first hs
    rw [dropFirst_eq ha]
    by_cases hb : nl ∈ b
    · obtain ⟨c, d, rfl, hd⟩ := exists_last hb
      rw [← List.cons_append, ← List.append_assoc, dropLast_eq hd, dropLast_eq hd,
        List.append_assoc, List.cons_append]
      exact (List.suffix_append (a ++ [nl]) _).sublist.trans (by simp)
    · rw [dropLast_of_not_mem hb]
      exact List.nil_sublist _
  · rw [dropFirst_of_not_mem hs]
    exact List.nil_sublist _

end Lines
