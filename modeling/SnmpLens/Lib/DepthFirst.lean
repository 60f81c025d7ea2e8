import Mathlib.Data.List.Chain
import Mathlib.Data.List.Nodup
import Mathlib.Logic.Relation

/-!
# Depth-first search

`Explores v ns ps w`: a search that has visited `v` goes on to the nodes `ns`, one after the
other, and has visited `w` in the end; `ps` are the paths by which it has come to each of the
nodes it has visited on the way, in the order in which it has come to them. A node that has been
visited is passed over, another one is visited and what it leads to is gone through before
anything else.

A path closes a loop when the node at its end leads to one of its nodes. That is how a search
finds cycles; it does not find all of them, since it passes over the nodes it has done with.
-/

namespace DepthFirst

variable {α : Type*} {succ : α → List α} {v w ns : List α} {ps : List (List α)} {n m x : α}

inductive Explores (succ : α → List α) : List α → List α → List (List α) → List α → Prop
  | nil (v : List α) : Explores succ v [] [] v
  | skip {v ns w : List α} {ps : List (List α)} {n : α} :
      n ∈ v → Explores succ v ns ps w → Explores succ v (n :: ns) ps w
  | visit {v u ns w : List α} {ps qs : List (List α)} {n : α} :
      n ∉ v → Explores succ (n :: v) (succ n) ps u → Explores succ u ns qs w →
      Explores succ v (n :: ns) ([n] :: (ps.map (n :: ·) ++ qs)) w

/-- One node leads to another. -/
def Leads (succ : α → List α) (a b : α) : Prop := b ∈ succ a

namespace Explores

/-- What has been visited stays visited. -/
theorem mono (h : Explores succ v ns ps w) : ∀ x ∈ v, x ∈ w := by
  induction h with
  | nil v => exact fun x hx => hx
  | skip _ _ ih => exact ih
  | visit _ _ _ ih ih' => exact fun x hx => ih' x (ih x (List.mem_cons_of_mem _ hx))

/-- What the search goes to is visited. -/
theorem visits (h : Explores succ v ns ps w) : ∀ n ∈ ns, n ∈ w := by
  induction h with
  | nil v => exact fun n hn => absurd hn List.not_mem_nil
  | skip hmem hrest ih =>
      intro n hn
      rcases List.mem_cons.mp hn with rfl | hn
      · exact hrest.mono _ hmem
      · exact ih n hn
  | visit _ hin hrest _ ih' =>
      intro n hn
      rcases List.mem_cons.mp hn with rfl | hn
      · exact hrest.mono _ (hin.mono _ List.mem_cons_self)
      · exact ih' n hn

/-- **Nothing that is newly visited leads out of what is visited.** -/
theorem closed (h : Explores succ v ns ps w) : ∀ x ∈ w, x ∉ v → ∀ y ∈ succ x, y ∈ w := by
  induction h with
  | nil v => exact fun x hx hout => absurd hx hout
  | skip _ _ ih => exact ih
  | @visit v u ns w ps qs n _ hin hrest ih ih' =>
      intro x hx hout y hy
      by_cases hu : x ∈ u
      · by_cases hn : x = n
        · subst hn
          exact hrest.mono _ (hin.visits y hy)
        · have hnew : x ∉ n :: v := fun hmem => (List.mem_cons.mp hmem).elim hn hout
          exact hrest.mono _ (ih x hu hnew y hy)
      · exact ih' x hx hu y hy

/-- What is newly visited is reached from what the search goes to. -/
theorem reached (h : Explores succ v ns ps w) :
    ∀ x ∈ w, x ∈ v ∨ ∃ n ∈ ns, Relation.ReflTransGen (Leads succ) n x := by
  induction h with
  | nil v => exact fun x hx => .inl hx
  | skip _ _ ih =>
      intro x hx
      rcases ih x hx with hv | ⟨n, hn, hreach⟩
      · exact .inl hv
      · exact .inr ⟨n, List.mem_cons_of_mem _ hn, hreach⟩
  | @visit v u ns w ps qs n _ _ _ ih ih' =>
      intro x hx
      rcases ih' x hx with hu | ⟨k, hk, hreach⟩
      · rcases ih x hu with hv | ⟨k, hk, hreach⟩
        · rcases List.mem_cons.mp hv with rfl | hv
          · exact .inr ⟨x, List.mem_cons_self, .refl⟩
          · exact .inl hv
        · exact .inr ⟨n, List.mem_cons_self, .head hk hreach⟩
      · exact .inr ⟨k, List.mem_cons_of_mem _ hk, hreach⟩

/-- **A search from the start visits what can be reached**, and nothing else. -/
theorem mem_iff (h : Explores succ [] ns ps w) :
    x ∈ w ↔ ∃ n ∈ ns, Relation.ReflTransGen (Leads succ) n x := by
  constructor
  · intro hx
    exact (h.reached x hx).resolve_left List.not_mem_nil
  · rintro ⟨n, hn, hreach⟩
    induction hreach with
    | refl => exact h.visits n hn
    | tail _ hstep ih => exact h.closed _ ih List.not_mem_nil _ hstep

/-- There is one way to search. -/
theorem unique {ps' : List (List α)} {w' : List α} (h : Explores succ v ns ps w)
    (h' : Explores succ v ns ps' w') : ps = ps' ∧ w = w' := by
  induction h generalizing ps' w' with
  | nil v =>
      cases h'
      exact ⟨rfl, rfl⟩
  | skip hmem _ ih =>
      cases h' with
      | skip _ hrest => exact ih hrest
      | visit hout _ _ => exact absurd hmem hout
  | visit hout _ _ ih ih' =>
      cases h' with
      | skip hmem _ => exact absurd hmem hout
      | visit _ hin hrest =>
          obtain ⟨rfl, rfl⟩ := ih hin
          obtain ⟨rfl, rfl⟩ := ih' hrest
          exact ⟨rfl, rfl⟩

/-- A path begins with a node the search goes to, and each of its nodes leads to the next. -/
theorem path (h : Explores succ v ns ps w) :
    ∀ p ∈ ps, (∃ n ∈ ns, p.head? = some n) ∧ p.IsChain (Leads succ) := by
  induction h with
  | nil v => exact fun p hp => absurd hp List.not_mem_nil
  | skip _ _ ih =>
      intro p hp
      obtain ⟨⟨n, hn, hhead⟩, hchain⟩ := ih p hp
      exact ⟨⟨n, List.mem_cons_of_mem _ hn, hhead⟩, hchain⟩
  | @visit v u ns w ps qs n _ _ _ ih ih' =>
      intro p hp
      rcases List.mem_cons.mp hp with rfl | hp
      · exact ⟨⟨n, List.mem_cons_self, rfl⟩, List.isChain_singleton n⟩
      · rcases List.mem_append.mp hp with hp | hp
        · obtain ⟨q, hq, rfl⟩ := List.mem_map.mp hp
          obtain ⟨⟨k, hk, hhead⟩, hchain⟩ := ih q hq
          refine ⟨⟨n, List.mem_cons_self, rfl⟩, List.isChain_cons.mpr ⟨?_, hchain⟩⟩
          intro y hy
          obtain rfl := Option.some.inj (hhead.symm.trans hy)
          exact hk
        · obtain ⟨⟨k, hk, hhead⟩, hchain⟩ := ih' p hp
          exact ⟨⟨k, List.mem_cons_of_mem _ hk, hhead⟩, hchain⟩

end Explores

/-! ## The search ends -/

section

variable [DecidableEq α]

/-- How much of `all` has not been visited. -/
def unvisited (all v : List α) : Nat := (all.filter (· ∉ v)).length

theorem unvisited_cons_lt {all : List α} (hn : n ∈ all) (hout : n ∉ v) :
    unvisited all (n :: v) < unvisited all v := by
  unfold unvisited
  induction all with
  | nil => exact absurd hn List.not_mem_nil
  | cons a all ih =>
      have hle : (all.filter (· ∉ n :: v)).length ≤ (all.filter (· ∉ v)).length := by
        refine (List.monotone_filter_right all fun x hx => ?_).length_le
        simp only [decide_eq_true_eq, List.mem_cons, not_or] at hx ⊢
        exact hx.2
      by_cases ha : a = n
      · subst ha
        rw [List.filter_cons_of_neg (by simp), List.filter_cons_of_pos (by simpa using hout)]
        exact Nat.lt_succ_of_le hle
      · have hmem := (List.mem_cons.mp hn).resolve_left (Ne.symm ha)
        by_cases hav : a ∈ v
        · rw [List.filter_cons_of_neg (by simp [hav]), List.filter_cons_of_neg (by simp [hav])]
          exact ih hmem
        · rw [List.filter_cons_of_pos (by simp [hav, ha]), List.filter_cons_of_pos (by simp [hav])]
          exact Nat.succ_lt_succ (ih hmem)

theorem unvisited_le {all : List α} (h : ∀ x ∈ v, x ∈ w) : unvisited all w ≤ unvisited all v := by
  refine (List.monotone_filter_right all fun x hx => ?_).length_le
  simp only [decide_eq_true_eq] at hx ⊢
  exact fun hv => hx (h x hv)

/-- **A search of finitely many nodes ends.** -/
theorem exists_explores {all : List α} (hclosed : ∀ x ∈ all, ∀ y ∈ succ x, y ∈ all)
    (hns : ∀ n ∈ ns, n ∈ all) (v : List α) : ∃ ps w, Explores succ v ns ps w := by
  obtain ⟨k, hk⟩ : ∃ k, k = unvisited all v := ⟨_, rfl⟩
  induction k using Nat.strongRecOn generalizing v ns with
  | ind k ih =>
      induction ns with
      | nil => exact ⟨[], v, .nil v⟩
      | cons n ns ihns =>
          have hrest : ∀ n ∈ ns, n ∈ all := fun x hx => hns x (List.mem_cons_of_mem _ hx)
          by_cases hn : n ∈ v
          · obtain ⟨ps, w, h⟩ := ihns hrest
            exact ⟨ps, w, .skip hn h⟩
          · have hall := hns n List.mem_cons_self
            have hlt := unvisited_cons_lt (v := v) hall hn
            obtain ⟨ps, u, h⟩ := ih _ (by omega) (hclosed n hall) (n :: v) rfl
            have hle : unvisited all u ≤ unvisited all (n :: v) := unvisited_le h.mono
            obtain ⟨qs, w, h'⟩ := ih _ (by omega) hrest u rfl
            exact ⟨_, _, .visit hn h h'⟩

end

/-! ## Loops -/

/-- The end of a path, from a node that its last node leads to. -/
def Closes (succ : α → List α) (path loop : List α) : Prop :=
  (∃ front, path = front ++ loop) ∧ ∃ a u, loop.head? = some a ∧ loop.getLast? = some u ∧ a ∈ succ u

/-- One of the paths, with `front` before it, closes a loop that the node is on. -/
def OnLoop (succ : α → List α) (front : List α) (ps : List (List α)) (m : α) : Prop :=
  ∃ p ∈ ps, ∃ loop, Closes succ (front ++ p) loop ∧ m ∈ loop

/-- The loops closed when a node is visited: at it, behind it, and by what comes after it. -/
theorem onLoop_visit {front : List α} {qs : List (List α)} :
    OnLoop succ front ([n] :: (ps.map (n :: ·) ++ qs)) m ↔
      (∃ loop, Closes succ (front ++ [n]) loop ∧ m ∈ loop) ∨
        OnLoop succ (front ++ [n]) ps m ∨ OnLoop succ front qs m := by
  unfold OnLoop
  constructor
  · rintro ⟨p, hp, loop, hloop, hm⟩
    rcases List.mem_cons.mp hp with rfl | hp
    · exact .inl ⟨loop, hloop, hm⟩
    · rcases List.mem_append.mp hp with hp | hp
      · obtain ⟨q, hq, rfl⟩ := List.mem_map.mp hp
        refine .inr (.inl ⟨q, hq, loop, ?_, hm⟩)
        rw [List.append_assoc]
        exact hloop
      · exact .inr (.inr ⟨p, hp, loop, hloop, hm⟩)
  · rintro (⟨loop, hloop, hm⟩ | ⟨q, hq, loop, hloop, hm⟩ | ⟨p, hp, loop, hloop, hm⟩)
    · exact ⟨[n], List.mem_cons_self, loop, hloop, hm⟩
    · refine ⟨n :: q, List.mem_cons_of_mem _ (List.mem_append_left _ (List.mem_map_of_mem hq)), loop,
        ?_, hm⟩
      rw [List.append_assoc] at hloop
      exact hloop
    · exact ⟨p, List.mem_cons_of_mem _ (List.mem_append_right _ hp), loop, hloop, hm⟩

/-- Along a chain one comes from its head to each of its nodes, and from these to its end. -/
theorem reaches_of_chain {p : List α} {a u : α} (hp : p.IsChain (Leads succ)) (ha : p.head? = some a)
    (hu : p.getLast? = some u) (hm : m ∈ p) :
    Relation.ReflTransGen (Leads succ) a m ∧ Relation.ReflTransGen (Leads succ) m u := by
  induction p generalizing a m with
  | nil => exact absurd hm List.not_mem_nil
  | cons b p ih =>
      obtain rfl := Option.some.inj ha
      cases p with
      | nil =>
          obtain rfl := List.mem_singleton.mp hm
          obtain rfl := Option.some.inj hu
          exact ⟨.refl, .refl⟩
      | cons c p =>
          obtain ⟨hstep, hchain⟩ := List.isChain_cons_cons.mp hp
          rw [List.getLast?_cons_cons] at hu
          rcases List.mem_cons.mp hm with rfl | hm
          · exact ⟨.refl, .head hstep (ih hchain rfl hu List.mem_cons_self).2⟩
          · obtain ⟨hfrom, hto⟩ := ih hchain rfl hu hm
            exact ⟨.head hstep hfrom, hto⟩

/-- **A loop is a cycle.** -/
theorem cycle_of_onLoop (h : Explores succ v ns ps w) (hm : OnLoop succ [] ps m) :
    Relation.TransGen (Leads succ) m m := by
  obtain ⟨p, hp, loop, ⟨⟨front, hfront⟩, a, u, ha, hu, hback⟩, hmem⟩ := hm
  obtain rfl : p = front ++ loop := hfront
  have hchain := (h.path _ hp).2.right_of_append
  obtain ⟨hfrom, hto⟩ := reaches_of_chain hchain ha hu hmem
  exact .trans_left (.tail' hto hback) hfrom

/-- On a path without repetition the loop to a node is what stands from it on. -/
theorem closes_iff [DecidableEq α] {p : List α} {u : α} (hnodup : (p ++ [u]).Nodup) :
    (∃ loop, Closes succ (p ++ [u]) loop ∧ m ∈ loop) ↔
      ∃ a ∈ succ u, a ∈ p ++ [u] ∧ m ∈ (p ++ [u]).dropWhile (· ≠ a) := by
  constructor
  · rintro ⟨loop, ⟨⟨front, hfront⟩, a, b, ha, hb, hback⟩, hm⟩
    obtain ⟨rest, rfl⟩ : ∃ rest, loop = a :: rest := by
      cases loop with
      | nil => cases ha
      | cons c rest => exact ⟨rest, by rw [Option.some.inj ha]⟩
    have hlast : b = u := by
      have hend : (p ++ [u]).getLast? = some b := by
        rw [hfront, List.getLast?_append_of_ne_nil _ (by simp), hb]
      rw [List.getLast?_concat] at hend
      exact (Option.some.inj hend).symm
    subst hlast
    refine ⟨a, hback, by rw [hfront]; simp, ?_⟩
    have hout : ∀ x ∈ front, (decide (x ≠ a)) = true := by
      intro x hx
      rw [hfront] at hnodup
      have hdisj := (List.nodup_append.mp hnodup).2.2
      exact decide_eq_true (hdisj x hx a List.mem_cons_self)
    rw [hfront, List.dropWhile_append_of_pos hout, List.dropWhile_cons_of_neg (by simp)]
    exact hm
  · rintro ⟨a, hback, ha, hm⟩
    refine ⟨(p ++ [u]).dropWhile (· ≠ a), ⟨⟨(p ++ [u]).takeWhile (· ≠ a), ?_⟩, a, u, ?_, ?_, hback⟩, hm⟩
    · exact List.takeWhile_append_dropWhile.symm
    · have hne : (p ++ [u]).dropWhile (· ≠ a) ≠ [] := List.ne_nil_of_mem hm
      have hhead := List.head_dropWhile_not (fun x => decide (x ≠ a)) (l := p ++ [u]) hne
      rw [List.head?_eq_some_head hne]
      simpa using hhead
    · have hne : (p ++ [u]).dropWhile (· ≠ a) ≠ [] := List.ne_nil_of_mem hm
      have hsplit : (p ++ [u]).takeWhile (· ≠ a) ++ (p ++ [u]).dropWhile (· ≠ a) = p ++ [u] :=
        List.takeWhile_append_dropWhile
      have hend := congrArg List.getLast? hsplit
      rw [List.getLast?_append_of_ne_nil _ hne, List.getLast?_concat] at hend
      exact hend

end DepthFirst
