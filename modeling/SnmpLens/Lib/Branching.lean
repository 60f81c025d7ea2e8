import Mathlib.Logic.Hydra
import Mathlib.Data.Fintype.Pigeonhole
import Mathlib.Order.WellFounded

/-!
# Branching processes

A pool of items on a clock. At any moment some item of the pool is taken out and
whatever it becomes is put in its place; `becomes t a s` says that `a` may become
the items `s` at time `t`. Whether such a process comes to an end is decided by
single lines of descent: a pool goes on forever exactly when some item in it has
an endless line of descendants, provided that what can happen once can happen
again later (`Recurrent`).

A line of descent in a finite set is endless exactly when it can come back to
where it was, which is `acc_iff_no_loop`.
-/

namespace Branching

open Relation

variable {α : Type*} {becomes : Nat → α → Multiset α → Prop}

/-- The items of a process and its clock. -/
structure Pool (α : Type*) where
  now : Nat
  items : Multiset α

/-- One item becomes what it may become, now or later. -/
inductive Step (becomes : Nat → α → Multiset α → Prop) : Pool α → Pool α → Prop
  | mk {now later : Nat} {a : α} {s t : Multiset α} :
      now ≤ later → becomes later a t → Step becomes ⟨now, a ::ₘ s⟩ ⟨later, s + t⟩

/-- `b` is among what `a` may become at some time. -/
def Child (becomes : Nat → α → Multiset α → Prop) (b a : α) : Prop :=
  ∃ t s, becomes t a s ∧ b ∈ s

/-- What can happen at one time can happen at any later one. -/
def Recurrent (becomes : Nat → α → Multiset α → Prop) : Prop :=
  ∀ t a s, becomes t a s → ∀ now, ∃ later, now ≤ later ∧ becomes later a s

/-- No run from the pool goes on forever. -/
def Ends (becomes : Nat → α → Multiset α → Prop) (p : Pool α) : Prop :=
  ¬ ∃ run : Nat → Pool α, run 0 = p ∧ ∀ n, Step becomes (run n) (run (n + 1))

theorem ends_iff_acc {p : Pool α} : Ends becomes p ↔ Acc (fun q p => Step becomes p q) p := by
  rw [acc_iff_isEmpty_descending_chain, isEmpty_subtype, Ends, not_exists]

/-- A pool that ends has only items whose lines of descent end. -/
theorem acc_child_of_acc (hrec : Recurrent becomes) {p : Pool α}
    (h : Acc (fun q p => Step becomes p q) p) : ∀ a ∈ p.items, Acc (Child becomes) a := by
  induction h with
  | intro p _ ih =>
      obtain ⟨now, items⟩ := p
      intro a ha
      refine Acc.intro a ?_
      intro b hb
      obtain ⟨t, s, hbec, hmem⟩ := hb
      obtain ⟨later, hle, hbec⟩ := hrec t a s hbec now
      obtain ⟨rest, rfl⟩ := Multiset.exists_cons_of_mem ha
      exact ih ⟨later, rest + s⟩ (.mk hle hbec) b (Multiset.mem_add.mpr (.inr hmem))

/-- The line of descent, where it is known to end. -/
def Ending (r : α → α → Prop) (b a : α) : Prop := r b a ∧ Acc r a

theorem irrefl_ending (r : α → α → Prop) : Std.Irrefl (Ending r) := by
  refine ⟨?_⟩
  intro a h
  obtain ⟨hr, hacc⟩ := h
  induction hacc with
  | intro a _ ih => exact ih a hr hr

theorem acc_ending {r : α → α → Prop} {a : α} (h : Acc r a) : Acc (Ending r) a :=
  Subrelation.accessible (fun hb => hb.1) h

/-- A pool of items whose lines of descent end, ends: the multiset goes down. -/
theorem acc_of_acc_child {p : Pool α} (h : ∀ a ∈ p.items, Acc (Child becomes) a) :
    Acc (fun q p => Step becomes p q) p := by
  have := irrefl_ending (Child becomes)
  have hcut : Acc (CutExpand (Ending (Child becomes))) p.items :=
    acc_of_singleton fun a ha => (acc_ending (h a ha)).cutExpand
  obtain ⟨now, items⟩ := p
  dsimp only at h hcut
  induction hcut generalizing now with
  | intro items _ ih =>
      refine Acc.intro _ ?_
      intro q hq
      cases hq with
      | @mk _ later a s t _ hbec =>
          have ha : Acc (Child becomes) a := h a (Multiset.mem_cons_self a s)
          refine ih (s + t) ⟨t, a, ?_, ?_⟩ later ?_
          · intro b hb
            exact ⟨⟨later, t, hbec, hb⟩, ha⟩
          · rw [← Multiset.singleton_add a s]
            rw [Multiset.add_comm (s + t), Multiset.add_assoc]
          · intro b hb
            rcases Multiset.mem_add.mp hb with hb | hb
            · exact h b (Multiset.mem_cons_of_mem hb)
            · exact ha.inv ⟨later, t, hbec, hb⟩

/-- **A pool ends exactly when every line of descent from it does.** -/
theorem ends_iff (hrec : Recurrent becomes) {p : Pool α} :
    Ends becomes p ↔ ∀ a ∈ p.items, Acc (Child becomes) a :=
  ends_iff_acc.trans ⟨acc_child_of_acc hrec, acc_of_acc_child⟩

/-! ## Lines of descent in a finite set -/

variable {r : α → α → Prop}

theorem no_loop_of_acc {a b : α} (h : Acc (fun y x => r x y) a) (hab : ReflTransGen r a b) :
    ¬ TransGen r b b := by
  have hb : Acc (fun y x => r x y) b := by
    induction hab with
    | refl => exact h
    | tail _ hstep ih => exact ih.inv hstep
  intro hloop
  have hswap : TransGen (fun y x => r x y) b b := transGen_swap.mpr hloop
  have hacc : Acc (TransGen fun y x => r x y) b := hb.transGen
  induction hacc with
  | intro b _ ih => exact ih b hswap hab hb hloop hswap

/-- **In a finite set, a line of descent ends exactly when it reaches no loop.** -/
theorem acc_iff_no_loop {nodes : Set α} (hfin : nodes.Finite) (hnodes : ∀ x y, r x y → y ∈ nodes)
    {a : α} : Acc (fun y x => r x y) a ↔ ¬ ∃ b, ReflTransGen r a b ∧ TransGen r b b := by
  refine ⟨fun h ⟨b, hab, hloop⟩ => no_loop_of_acc h hab hloop, ?_⟩
  intro hno
  by_contra hacc
  obtain ⟨line, h0, hline⟩ := not_acc_iff_exists_descending_chain.mp hacc
  have hreach : ∀ n, ReflTransGen r a (line n) := by
    intro n
    induction n with
    | zero => exact h0 ▸ .refl
    | succ n ih => exact ih.tail (hline n)
  have htrans : ∀ n k, TransGen r (line n) (line (n + k + 1)) := by
    intro n k
    induction k with
    | zero => exact .single (hline n)
    | succ k ih => exact ih.tail (hline (n + k + 1))
  -- an endless line in a finite set comes back to where it was
  have hmaps : ∀ n, line (n + 1) ∈ nodes := fun n => hnodes _ _ (hline n)
  have : Finite nodes := hfin
  obtain ⟨i, j, hne, heq⟩ := Finite.exists_ne_map_eq_of_infinite
    fun n => (⟨line (n + 1), hmaps n⟩ : nodes)
  have heq : line (i + 1) = line (j + 1) := congrArg Subtype.val heq
  rcases Nat.lt_or_gt_of_ne hne with hlt | hlt
  · obtain ⟨k, rfl⟩ := Nat.exists_eq_add_of_lt hlt
    refine hno ⟨line (i + 1), hreach _, ?_⟩
    have hloop := htrans (i + 1) k
    rwa [show i + 1 + k + 1 = i + k + 1 + 1 by omega, ← heq] at hloop
  · obtain ⟨k, rfl⟩ := Nat.exists_eq_add_of_lt hlt
    refine hno ⟨line (j + 1), hreach _, ?_⟩
    have hloop := htrans (j + 1) k
    rwa [show j + 1 + k + 1 = j + k + 1 + 1 by omega, heq] at hloop

end Branching
