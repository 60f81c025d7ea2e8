import Mathlib.Data.List.Sort
import Mathlib.Order.Lattice

/-!
# Reading a sorted list with a cursor

A cursor is a key, of an element or of none. What lies behind it is `after`, and
`advance` moves it onto the first element there. In a list whose keys strictly
increase, `n` moves drop the first `n` elements of what was behind it: every one
of them is met once, in order, and after the last the cursor stays where it is.

Read from its last element instead, such a list comes in pages: a page is the first few elements
of a list whose keys strictly decrease, which are those down to the key of its last one.
-/

namespace Cursor

variable {α β : Type} [LinearOrder β] {key : α → β} {xs rest : List α} {x : α} {o : β}

/-- What lies behind `o`. -/
def after (key : α → β) (xs : List α) (o : β) : List α := xs.filter fun x => o < key x

/-- The key of the first element behind `o`, or `o` where there is none. -/
def advance (key : α → β) (xs : List α) (o : β) : β := ((after key xs o).head?.map key).getD o

theorem mem_after : x ∈ after key xs o ↔ x ∈ xs ∧ o < key x := by
  unfold after
  rw [List.mem_filter, decide_eq_true_eq]

theorem after_eq_self (h : ∀ x ∈ xs, o < key x) : after key xs o = xs := by
  unfold after
  rw [List.filter_eq_self]
  exact fun x hx => decide_eq_true (h x hx)

theorem after_eq_nil (h : ∀ x ∈ xs, key x ≤ o) : after key xs o = [] := by
  unfold after
  rw [List.filter_eq_nil_iff]
  exact fun x hx => by simpa using h x hx

theorem after_append (xs ys : List α) :
    after key (xs ++ ys) o = after key xs o ++ after key ys o :=
  List.filter_append ..

theorem after_filter (p : α → Bool) (xs : List α) :
    after key (xs.filter p) o = (after key xs o).filter p := by
  unfold after
  rw [List.filter_filter, List.filter_filter]
  simp only [Bool.and_comm]

theorem increasing_after (hs : (xs.map key).Pairwise (· < ·)) :
    ((after key xs o).map key).Pairwise (· < ·) :=
  hs.sublist (List.filter_sublist.map key)

theorem after_of_cons (hs : (xs.map key).Pairwise (· < ·)) (h : after key xs o = x :: rest) :
    after key xs (key x) = rest := by
  have hx : o < key x := (mem_after.mp (h ▸ List.mem_cons_self)).2
  have hrest : ∀ y ∈ rest, key x < key y := by
    have hinc := increasing_after (o := o) hs
    rw [h, List.map_cons] at hinc
    exact fun y hy => (List.pairwise_cons.mp hinc).1 _ (List.mem_map_of_mem hy)
  have hnarrow : after key xs (key x) = after key (after key xs o) (key x) := by
    unfold after
    rw [List.filter_filter]
    refine List.filter_congr fun y _ => ?_
    rw [Bool.eq_iff_iff, Bool.and_eq_true, decide_eq_true_eq, decide_eq_true_eq]
    exact ⟨fun hy => ⟨hy, hx.trans hy⟩, fun hy => hy.1⟩
  rw [hnarrow, h]
  unfold after
  rw [List.filter_cons_of_neg (by simp), List.filter_eq_self]
  exact fun y hy => decide_eq_true (hrest y hy)

theorem advance_of_cons (h : after key xs o = x :: rest) : advance key xs o = key x := by
  unfold advance
  rw [h]
  rfl

theorem advance_of_nil (h : after key xs o = []) : advance key xs o = o := by
  unfold advance
  rw [h]
  rfl

theorem after_advance (hs : (xs.map key).Pairwise (· < ·)) :
    after key xs (advance key xs o) = (after key xs o).tail := by
  cases h : after key xs o with
  | nil => rw [advance_of_nil h, h, List.tail_nil]
  | cons x rest => rw [advance_of_cons h, after_of_cons hs h, List.tail_cons]

/-- **`n` moves pass the first `n` elements, one each.** -/
theorem after_advance_iterate (hs : (xs.map key).Pairwise (· < ·)) (n : Nat) :
    after key xs ((advance key xs)^[n] o) = (after key xs o).drop n := by
  induction n with
  | zero => rfl
  | succ n ih =>
      rw [Function.iterate_succ_apply', after_advance hs, ih, List.tail_drop]

/-! ## Pages -/

/-- The keys strictly decrease. -/
def Descends (key : α → β) (xs : List α) : Prop := xs.Pairwise fun a b => key b < key a

theorem Descends.filter (hs : Descends key xs) (p : α → Bool) : Descends key (xs.filter p) :=
  List.Pairwise.filter p hs

theorem Descends.nodup (hs : Descends key xs) : xs.Nodup :=
  List.Pairwise.imp (fun h => ne_of_apply_ne key h.ne') hs

theorem Descends.eq_of_mem_iff {ys : List α} (hx : Descends key xs) (hy : Descends key ys)
    (h : ∀ x, x ∈ xs ↔ x ∈ ys) : xs = ys := by
  have hperm : xs.Perm ys := (List.perm_ext_iff_of_nodup hx.nodup hy.nodup).mpr h
  exact hperm.eq_of_pairwise (fun a b _ _ hab hba => absurd hab hba.asymm) hx hy

theorem rel_or_rel {R : α → α → Prop} {l : List α} (h : l.Pairwise R) {a b : α}
    (ha : a ∈ l) (hb : b ∈ l) (hne : a ≠ b) : R a b ∨ R b a := by
  induction h with
  | nil => cases ha
  | @cons x l hx _ ih =>
      rcases List.mem_cons.mp ha with rfl | ha'
      · rcases List.mem_cons.mp hb with rfl | hb'
        · exact absurd rfl hne
        · exact .inl (hx b hb')
      · rcases List.mem_cons.mp hb with rfl | hb'
        · exact .inr (hx a ha')
        · exact ih ha' hb'

theorem take_of_getLast (hs : Descends key xs) {n : Nat} (hx : (xs.take n).getLast? = some x) :
    xs.take n = xs.filter fun y => decide (key x ≤ key y) := by
  obtain ⟨front, hfront⟩ := List.getLast?_eq_some_iff.mp hx
  have hsplit : Descends key (front ++ [x] ++ xs.drop n) := by
    rw [← hfront, List.take_append_drop]
    exact hs
  obtain ⟨hpage, -, hrest⟩ := List.pairwise_append.mp hsplit
  have hin : (xs.take n).filter (fun y => decide (key x ≤ key y)) = xs.take n := by
    rw [List.filter_eq_self, hfront]
    intro y hy
    rcases List.mem_append.mp hy with hy | hy
    · exact decide_eq_true ((List.pairwise_append.mp hpage).2.2 y hy x (by simp)).le
    · rw [List.mem_singleton.mp hy]
      exact decide_eq_true le_rfl
  have hout : (xs.drop n).filter (fun y => decide (key x ≤ key y)) = [] := by
    rw [List.filter_eq_nil_iff]
    intro y hy
    simpa using hrest x (by simp) y hy
  conv_rhs => rw [← List.take_append_drop n xs, List.filter_append, hin, hout, List.append_nil]

end Cursor
