import Mathlib.Data.List.Lex
import Mathlib.Data.List.Pairwise
import Mathlib.Order.Lattice

/-!
# Words none of which is a prefix of another

Lists over a linear order, ordered lexicographically: a word comes before everything
it is a prefix of, and everything it is a prefix of comes right behind it, with
nothing else in between. That is why neighbours are enough. `Before` says of two
words that they are in order and that neither is a prefix of the other; it is
transitive, so a list whose neighbours are `Before` one another is sorted and
prefix-free as a whole.
-/

namespace Prefix

variable {α : Type*} [LinearOrder α]

/-- In order, and the second word does not begin with the first. -/
def Before (a b : List α) : Prop := a < b ∧ ¬ a <+: b

theorem prefix_le {a b : List α} (h : a <+: b) : a ≤ b := by
  obtain ⟨t, rfl⟩ := h
  induction a with
  | nil => exact not_lt.mp (List.not_lt_nil _)
  | cons x a ih =>
      refine not_lt.mp fun hlt => ?_
      rcases List.cons_lt_cons_iff.mp hlt with h | ⟨_, h⟩
      · exact lt_irrefl _ h
      · exact absurd ih (not_le.mpr h)

/-- What lies between a word and one it is a prefix of has that prefix too. -/
theorem prefix_of_between {a b c : List α} (hab : a ≤ b) (hbc : b ≤ c) (h : a <+: c) : a <+: b := by
  obtain ⟨t, rfl⟩ := h
  induction a generalizing b with
  | nil => exact List.nil_prefix
  | cons x a ih =>
      cases b with
      | nil => exact absurd hab (not_le.mpr (List.nil_lt_cons x a))
      | cons y b =>
          have hyx : ¬ y < x := fun hlt => absurd hab
            (not_le.mpr (List.cons_lt_cons_iff.mpr (.inl hlt)))
          have hxy : ¬ x < y := fun hlt => absurd hbc
            (not_le.mpr (List.cons_lt_cons_iff.mpr (.inl hlt)))
          obtain rfl : x = y := le_antisymm (not_lt.mp hyx) (not_lt.mp hxy)
          refine List.cons_prefix_cons.mpr ⟨rfl, ih ?_ ?_⟩
          · exact not_lt.mp fun hlt => absurd hab
              (not_le.mpr (List.cons_lt_cons_iff.mpr (.inr ⟨rfl, hlt⟩)))
          · exact not_lt.mp fun hlt => absurd hbc
              (not_le.mpr (List.cons_lt_cons_iff.mpr (.inr ⟨rfl, hlt⟩)))

theorem Before.trans {a b c : List α} (hab : Before a b) (hbc : Before b c) : Before a c :=
  ⟨hab.1.trans hbc.1, fun h => hab.2 (prefix_of_between hab.1.le hbc.1.le h)⟩

instance : IsTrans (List α) Before := ⟨fun _ _ _ => Before.trans⟩

theorem before_iff {a b : List α} : Before a b ↔ a < b ∧ ¬ a <+: b ∧ ¬ b <+: a := by
  constructor
  · intro h
    exact ⟨h.1, h.2, fun hp => absurd (prefix_le hp) (not_le.mpr h.1)⟩
  · intro h
    exact ⟨h.1, h.2.1⟩

/-- Neither word begins with the other. -/
def Apart (a b : List α) : Prop := ¬ a <+: b ∧ ¬ b <+: a

theorem Apart.symm {a b : List α} (h : Apart a b) : Apart b a := ⟨h.2, h.1⟩

theorem Apart.before {a b : List α} (h : Apart a b) (hle : a ≤ b) : Before a b :=
  ⟨lt_of_le_of_ne hle fun heq => h.1 (heq ▸ List.prefix_refl a), h.1⟩

/-- How the words are sorted makes no difference to whether they are apart. -/
theorem pairwise_apart_perm {words words' : List (List α)} (h : words.Perm words') :
    words.Pairwise Apart ↔ words'.Pairwise Apart :=
  h.pairwise_iff fun hab => hab.symm

theorem pairwise_before_iff_apart {words : List (List α)} (hle : words.Pairwise (· ≤ ·)) :
    words.Pairwise Before ↔ words.Pairwise Apart := by
  constructor
  · exact fun h => h.imp fun hab => (before_iff.mp hab).2
  · intro h
    exact (h.and hle).imp fun hab => hab.1.before hab.2

/-- **Sorted and prefix-free, in one relation.** -/
theorem pairwise_before_iff {words : List (List α)} :
    words.Pairwise Before ↔ words.Pairwise (· < ·) ∧
      ∀ a ∈ words, ∀ b ∈ words, a <+: b → a = b := by
  constructor
  · intro h
    refine ⟨h.imp fun hb => hb.1, fun a ha b hb hp => ?_⟩
    by_contra hne
    let apart (a b : List α) : Prop := ¬ a <+: b ∧ ¬ b <+: a
    have : Std.Symm apart := ⟨fun _ _ hab => hab.symm⟩
    have hapart : words.Pairwise apart := h.imp fun hb => (before_iff.mp hb).2
    exact (hapart.forall ha hb hne).1 hp
  · rintro ⟨hlt, hfree⟩
    refine hlt.imp_of_mem ?_
    intro a b ha hb hab
    exact ⟨hab, fun hp => absurd (hfree a ha b hb hp) hab.ne⟩

/-- **Neighbours are enough.** A word put where it belongs leaves the list sorted and prefix-free
as soon as it does so between its two neighbours. -/
theorem pairwise_insert_iff {front back : List (List α)} {o : List α}
    (h : (front ++ back).Pairwise Before) (hfront : ∀ a ∈ front, a < o)
    (hback : ∀ a ∈ back, o ≤ a) :
    (front ++ o :: back).Pairwise Before ↔
      (∀ a ∈ front.getLast?, ¬ a <+: o) ∧ ∀ a ∈ back.head?, o ≠ a ∧ ¬ o <+: a := by
  obtain ⟨hf, hb, hcross⟩ := List.pairwise_append.mp h
  constructor
  · intro hins
    obtain ⟨_, hob, hfo⟩ := List.pairwise_append.mp hins
    refine ⟨fun a ha => (hfo a (List.mem_of_mem_getLast? ha) o List.mem_cons_self).2, ?_⟩
    intro a ha
    have hoa := (List.pairwise_cons.mp hob).1 a (List.mem_of_mem_head? ha)
    exact ⟨hoa.1.ne, hoa.2⟩
  · rintro ⟨hlast, hhead⟩
    have hfo : ∀ a ∈ front, Before a o := by
      rcases List.eq_nil_or_concat front with rfl | ⟨init, x, rfl⟩
      · simp
      · rw [List.concat_eq_append] at hf hfront hlast ⊢
        have hxo : Before x o := ⟨hfront x (by simp), hlast x (by simp)⟩
        intro a ha
        rcases List.mem_append.mp ha with ha | ha
        · exact ((List.pairwise_append.mp hf).2.2 a ha x (by simp)).trans hxo
        · rw [List.mem_singleton.mp ha]
          exact hxo
    have hob : ∀ a ∈ back, Before o a := by
      cases back with
      | nil => simp
      | cons x rest =>
          obtain ⟨hne, hnp⟩ := hhead x rfl
          have hox : Before o x := ⟨lt_of_le_of_ne (hback x List.mem_cons_self) hne, hnp⟩
          intro a ha
          rcases List.mem_cons.mp ha with rfl | ha
          · exact hox
          · exact hox.trans ((List.pairwise_cons.mp hb).1 a ha)
    refine List.pairwise_append.mpr ⟨hf, List.pairwise_cons.mpr ⟨hob, hb⟩, ?_⟩
    intro a ha b hmem
    rcases List.mem_cons.mp hmem with rfl | hmem
    · exact hfo a ha
    · exact hcross a ha b hmem

end Prefix
