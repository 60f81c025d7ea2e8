import Mathlib.Data.List.TakeDrop

/-!
# Edits of a text

An edit takes some of a text out and puts something in its place. It is carried out on a text that
has there what is taken out (`Takes`), and then it can be taken back. Edits one after the other lead
from one text to another (`Replays`), and two of them that touch are one edit.
-/

namespace Splice

variable {α : Type*}

/-- What is taken out of a text at a position, and what is put there. -/
structure Edit (α : Type*) where
  at_ : Nat
  removed : List α
  inserted : List α
deriving DecidableEq, Repr

namespace Edit

/-- The text with the edit carried out. -/
def apply (e : Edit α) (s : List α) : List α :=
  s.take e.at_ ++ e.inserted ++ s.drop (e.at_ + e.removed.length)

/-- The text with the edit taken back. -/
def revert (e : Edit α) (s : List α) : List α :=
  s.take e.at_ ++ e.removed ++ s.drop (e.at_ + e.inserted.length)

/-- The edit leads from the one text to the other. -/
def Takes (e : Edit α) (s t : List α) : Prop :=
  ∃ front back, front.length = e.at_ ∧ s = front ++ e.removed ++ back ∧
    t = front ++ e.inserted ++ back

variable {e d : Edit α} {s t u : List α}

theorem cut_around (front mid back : List α) : (front ++ mid ++ back).take front.length = front ∧
    (front ++ mid ++ back).drop (front.length + mid.length) = back := by
  constructor
  · rw [List.append_assoc, List.take_left]
  · rw [← List.length_append, List.drop_left]

theorem Takes.apply_eq (h : e.Takes s t) : e.apply s = t := by
  obtain ⟨front, back, hlen, rfl, rfl⟩ := h
  obtain ⟨hfront, hback⟩ := cut_around front e.removed back
  unfold apply
  rw [← hlen, hfront, hback]

theorem Takes.revert_eq (h : e.Takes s t) : e.revert t = s := by
  obtain ⟨front, back, hlen, rfl, rfl⟩ := h
  obtain ⟨hfront, hback⟩ := cut_around front e.inserted back
  unfold revert
  rw [← hlen, hfront, hback]

theorem Takes.eq_of_nothing (h : e.Takes s t) (hr : e.removed = []) (hi : e.inserted = []) :
    s = t := by
  obtain ⟨front, back, _, rfl, rfl⟩ := h
  rw [hr, hi]

/-- An edit that goes on where another one stopped inserting is one with it. -/
theorem Takes.insert (he : e.Takes s t) (hd : d.Takes t u) (hr : d.removed = [])
    (hat : d.at_ = e.at_ + e.inserted.length) :
    Takes ⟨e.at_, e.removed, e.inserted ++ d.inserted⟩ s u := by
  obtain ⟨front, back, hlen, rfl, rfl⟩ := he
  obtain ⟨front', back', hlen', hsplit, rfl⟩ := hd
  rw [hr, List.append_nil] at hsplit
  have hfront : front ++ e.inserted = front' :=
    (List.append_inj hsplit (by rw [List.length_append]; omega)).1
  have hback : back = back' := (List.append_inj hsplit (by rw [List.length_append]; omega)).2
  subst hfront hback
  exact ⟨front, back, hlen, rfl, by simp only [List.append_assoc]⟩

/-- An edit that takes out what stands in front of what another one took out is one with it. -/
theorem Takes.erase (he : e.Takes s t) (hd : d.Takes t u) (hei : e.inserted = [])
    (hdi : d.inserted = []) (hat : d.at_ + d.removed.length = e.at_) :
    Takes ⟨d.at_, d.removed ++ e.removed, []⟩ s u := by
  obtain ⟨front, back, hlen, rfl, rfl⟩ := he
  obtain ⟨front', back', hlen', hsplit, rfl⟩ := hd
  rw [hei, List.append_nil] at hsplit
  have hfront : front = front' ++ d.removed :=
    (List.append_inj hsplit (by rw [List.length_append]; omega)).1
  have hback : back = back' := (List.append_inj hsplit (by rw [List.length_append]; omega)).2
  subst hfront hback
  refine ⟨front', back, hlen', by simp only [List.append_assoc], ?_⟩
  rw [hdi]

/-- An edit inside of a text is one of the whole. -/
theorem Takes.widen (h : e.Takes s t) (pre post : List α) :
    Takes { e with at_ := pre.length + e.at_ } (pre ++ s ++ post) (pre ++ t ++ post) := by
  obtain ⟨front, back, hlen, rfl, rfl⟩ := h
  refine ⟨pre ++ front, back ++ post, ?_, ?_, ?_⟩
  · rw [List.length_append, hlen]
  · simp only [List.append_assoc]
  · simp only [List.append_assoc]

theorem cut_twice {lo hi : Nat} (h : lo ≤ hi) (s : List α) :
    s.take lo ++ (s.take hi).drop lo ++ s.drop hi = s := by
  have hfront : s.take lo = (s.take hi).take lo := by rw [List.take_take, Nat.min_eq_left h]
  rw [hfront, List.take_append_drop, List.take_append_drop]

end Edit

/-! ## Edits one after the other -/

/-- The edits lead from the one text to the other. -/
inductive Replays : List (Edit α) → List α → List α → Prop
  | nil (s : List α) : Replays [] s s
  | cons {e : Edit α} {es : List (Edit α)} {s t u : List α} :
      e.Takes s t → Replays es t u → Replays (e :: es) s u

/-- All of the edits carried out. -/
def replay (es : List (Edit α)) (s : List α) : List α := es.foldl (fun s e => e.apply s) s

namespace Replays

variable {es es' : List (Edit α)} {e : Edit α} {s t u : List α}

theorem replay_eq (h : Replays es s t) : replay es s = t := by
  induction h with
  | nil => rfl
  | @cons e es s t u he _ ih =>
      rw [← ih, ← he.apply_eq]
      rfl

theorem append (h : Replays es s t) (h' : Replays es' t u) : Replays (es ++ es') s u := by
  induction h with
  | nil => exact h'
  | cons he _ ih => exact .cons he (ih h')

theorem split (h : Replays (es ++ es') s u) : ∃ t, Replays es s t ∧ Replays es' t u := by
  induction es generalizing s with
  | nil => exact ⟨s, .nil s, h⟩
  | cons e es ih =>
      cases h with
      | cons he hrest =>
          obtain ⟨t, h1, h2⟩ := ih hrest
          exact ⟨t, .cons he h1, h2⟩

theorem single (h : e.Takes s t) : Replays [e] s t := .cons h (.nil t)

theorem of_single (h : Replays [e] s t) : e.Takes s t := by
  cases h with
  | cons he hnil =>
      cases hnil
      exact he

/-- Where a run of edits leads is determined by where it starts. -/
theorem unique (h : Replays es s t) (h' : Replays es s u) : t = u :=
  h.replay_eq.symm.trans h'.replay_eq

end Replays

end Splice
