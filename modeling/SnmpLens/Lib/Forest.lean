import Mathlib.Data.List.Nodup
import Mathlib.Data.List.Pairwise
import Mathlib.Logic.Relation

/-!
# Forests

A tree is a value and the trees below it. One is grown from a function that tells the
children of every value, as far down as `fuel` reaches; where every value has a rank
that its children are below, that is all the way. Then a tree holds what leads up to
its root, and where no value has two parents it holds it once.
-/

namespace Forest

variable {α : Type*}

inductive Rose (α : Type*) where
  | node (value : α) (children : List (Rose α))

namespace Rose

def value : Rose α → α
  | node a _ => a

def children : Rose α → List (Rose α)
  | node _ ts => ts

end Rose

mutual

/-- The values of a tree, each before what is below it. -/
def Rose.preorder : Rose α → List α
  | .node a ts => a :: preorder ts

def preorder : List (Rose α) → List α
  | [] => []
  | t :: ts => t.preorder ++ preorder ts

end

mutual

/-- The tree and all those in it. -/
def Rose.trees : Rose α → List (Rose α)
  | .node a ts => .node a ts :: trees ts

def trees : List (Rose α) → List (Rose α)
  | [] => []
  | t :: ts => t.trees ++ trees ts

end

theorem preorder_eq (ts : List (Rose α)) : preorder ts = ts.flatMap Rose.preorder := by
  induction ts with
  | nil => rfl
  | cons t ts ih => rw [preorder, ih, List.flatMap_cons]

theorem trees_eq (ts : List (Rose α)) : trees ts = ts.flatMap Rose.trees := by
  induction ts with
  | nil => rfl
  | cons t ts ih => rw [trees, ih, List.flatMap_cons]

variable {ts : List (Rose α)}

theorem mem_preorder {a : α} : a ∈ preorder ts ↔ ∃ t ∈ ts, a ∈ t.preorder := by
  rw [preorder_eq, List.mem_flatMap]

variable {t : Rose α}

theorem mem_trees : t ∈ trees ts ↔ ∃ u ∈ ts, t ∈ u.trees := by
  rw [trees_eq, List.mem_flatMap]

theorem preorder_node (a : α) (ts : List (Rose α)) :
    (Rose.node a ts).preorder = a :: preorder ts := by rw [Rose.preorder]

theorem trees_node (a : α) (ts : List (Rose α)) :
    (Rose.node a ts).trees = .node a ts :: trees ts := by rw [Rose.trees]

mutual

theorem Rose.map_trees (t : Rose α) : t.trees.map Rose.value = t.preorder := by
  cases t with
  | node a ts => rw [trees_node, preorder_node, List.map_cons, map_trees ts]; rfl

theorem map_trees (ts : List (Rose α)) : (trees ts).map Rose.value = preorder ts := by
  cases ts with
  | nil => rfl
  | cons t ts => rw [trees, preorder, List.map_append, t.map_trees, map_trees ts]

end

theorem Rose.value_mem_preorder (t : Rose α) : t.value ∈ t.preorder := by
  cases t with
  | node a ts =>
      rw [preorder_node]
      exact List.mem_cons_self

/-! ## Growing -/

/-- The tree of a value, as far down as the fuel reaches. -/
def grow (kids : α → List α) : Nat → α → Rose α
  | 0, a => .node a []
  | fuel + 1, a => .node a ((kids a).map (grow kids fuel))

/-- Every value in the tree stands over all its children, in their order. -/
inductive Grown (kids : α → List α) : Rose α → Prop
  | node {a : α} {ts : List (Rose α)} :
      ts.map Rose.value = kids a → (∀ t ∈ ts, Grown kids t) → Grown kids (.node a ts)

variable {kids : α → List α}

@[simp] theorem value_grow (fuel : Nat) (a : α) : (grow kids fuel a).value = a := by
  cases fuel <;> rfl

theorem grown_grow {rank : α → Nat} (hrank : ∀ a, ∀ c ∈ kids a, rank c < rank a) {fuel : Nat} {a : α}
    (h : rank a ≤ fuel) : Grown kids (grow kids fuel a) := by
  induction fuel generalizing a with
  | zero =>
      have hnone : kids a = [] := by
        refine List.eq_nil_iff_forall_not_mem.mpr fun c hc => ?_
        have := hrank a c hc
        omega
      exact .node (by rw [hnone]; rfl) fun t ht => absurd ht List.not_mem_nil
  | succ fuel ih =>
      refine .node ?_ fun t ht => ?_
      · rw [List.map_map]
        exact (List.map_congr_left fun c _ => value_grow fuel c).trans (List.map_id _)
      · obtain ⟨c, hc, rfl⟩ := List.mem_map.mp ht
        have := hrank a c hc
        exact ih (by omega)

/-! ## What is in a tree -/

/-- `x` leads up to `a`. -/
def Above (kids : α → List α) : α → α → Prop := Relation.ReflTransGen fun x y => x ∈ kids y

theorem Grown.mem_preorder (h : Grown kids t) {x : α} :
    x ∈ t.preorder ↔ Above kids x t.value := by
  constructor
  · intro hx
    induction h with
    | @node a ts hmap _ ih =>
        rw [preorder_node] at hx
        rcases List.mem_cons.mp hx with rfl | hx
        · exact .refl
        · obtain ⟨t, ht, hx⟩ := Forest.mem_preorder.mp hx
          have hkid : t.value ∈ kids a := hmap ▸ List.mem_map_of_mem ht
          exact (ih t ht hx).tail hkid
  · intro hx
    induction h with
    | @node a ts hmap _ ih =>
        rw [preorder_node]
        rcases Relation.ReflTransGen.cases_tail hx with heq | ⟨c, hup, hc⟩
        · exact heq ▸ List.mem_cons_self
        · obtain ⟨t, ht, rfl⟩ := List.mem_map.mp (hmap ▸ hc)
          exact List.mem_cons_of_mem _ (Forest.mem_preorder.mpr ⟨t, ht, ih t ht hup⟩)

/-- Every tree in a grown one is grown. -/
theorem Grown.children (h : Grown kids t) :
    ∀ u ∈ t.trees, u.children.map Rose.value = kids u.value := by
  induction h with
  | @node a ts hmap _ ih =>
      intro u hu
      rw [trees_node] at hu
      rcases List.mem_cons.mp hu with rfl | hu
      · exact hmap
      · obtain ⟨t, ht, hu⟩ := mem_trees.mp hu
        exact ih t ht u hu

/-- No value has two parents, and what is below a value ranks below it. -/
structure Descent (kids : α → List α) (rank : α → Nat) : Prop where
  unique : ∀ {x a b}, x ∈ kids a → x ∈ kids b → a = b
  lower : ∀ a, ∀ c ∈ kids a, rank c < rank a
  nodup : ∀ a, (kids a).Nodup

theorem nodup_preorder (hgrown : ∀ t ∈ ts, Grown kids t) (hvalues : (ts.map Rose.value).Nodup)
    (hone : ∀ t ∈ ts, t.preorder.Nodup)
    (hapart : ∀ t ∈ ts, ∀ u ∈ ts, ∀ x, Above kids x t.value → Above kids x u.value → t.value = u.value)
    : (preorder ts).Nodup := by
  rw [preorder_eq, List.nodup_flatMap]
  refine ⟨hone, ?_⟩
  have hne : ts.Pairwise fun t u => t.value ≠ u.value := List.pairwise_map.mp hvalues
  refine hne.imp_of_mem fun ht hu hne x hx hx' => hne ?_
  exact hapart _ ht _ hu x ((hgrown _ ht).mem_preorder.mp hx) ((hgrown _ hu).mem_preorder.mp hx')

namespace Descent

variable {rank : α → Nat} (d : Descent kids rank)

include d

theorem rank_le {x a : α} (h : Above kids x a) : rank x ≤ rank a := by
  induction h with
  | refl => exact Nat.le_refl _
  | tail _ hstep ih => exact Nat.le_trans ih (Nat.le_of_lt (d.lower _ _ hstep))

/-- What leads up to two values leads up to one through the other. -/
theorem total {x a b : α} (ha : Above kids x a) (hb : Above kids x b) :
    Above kids a b ∨ Above kids b a :=
  Relation.ReflTransGen.total_of_right_unique (fun _ _ _ h h' => d.unique h h') ha hb

/-- Two children of one value have nothing in common. -/
theorem siblings {x a c c' : α} (hc : c ∈ kids a) (hc' : c' ∈ kids a) (h : Above kids x c)
    (h' : Above kids x c') : c = c' := by
  have hone : ∀ {c c'}, c ∈ kids a → c' ∈ kids a → Above kids c c' → c = c' := by
    intro c c' hc hc' hup
    rcases Relation.ReflTransGen.cases_head hup with heq | ⟨b, hb, hup⟩
    · exact heq
    · obtain rfl := d.unique hb hc
      have := d.rank_le hup
      have := d.lower _ _ hc'
      omega
  rcases d.total h h' with hup | hup
  · exact hone hc hc' hup
  · exact (hone hc' hc hup).symm

/-- **A tree holds each value once.** -/
theorem nodup_tree (h : Grown kids t) : t.preorder.Nodup := by
  induction h with
  | @node a ts hmap hgrown ih =>
      rw [preorder_node, List.nodup_cons]
      have hkid : ∀ t ∈ ts, t.value ∈ kids a := fun t ht => hmap ▸ List.mem_map_of_mem ht
      constructor
      · intro ha
        obtain ⟨t, ht, ha⟩ := mem_preorder.mp ha
        have := d.rank_le ((hgrown t ht).mem_preorder.mp ha)
        have := d.lower a _ (hkid t ht)
        omega
      · refine nodup_preorder hgrown (hmap ▸ d.nodup a) ih fun t ht u hu x hx hx' => ?_
        exact d.siblings (hkid t ht) (hkid u hu) hx hx'

/-- **A forest holds each value once**, its roots being children of nothing. -/
theorem nodup_forest (hgrown : ∀ t ∈ ts, Grown kids t) (hvalues : (ts.map Rose.value).Nodup)
    (hroot : ∀ t ∈ ts, ∀ a, t.value ∉ kids a) :
    (preorder ts).Nodup := by
  refine nodup_preorder hgrown hvalues (fun t ht => d.nodup_tree (hgrown t ht)) ?_
  intro t ht u hu x hx hx'
  have hone : ∀ {r r'}, (∀ a, r ∉ kids a) → Above kids r r' → r = r' := by
    intro r r' hr hup
    rcases Relation.ReflTransGen.cases_head hup with heq | ⟨b, hb, -⟩
    · exact heq
    · exact absurd hb (hr b)
  rcases d.total hx hx' with hup | hup
  · exact hone (hroot t ht) hup
  · exact (hone (hroot u hu) hup).symm

end Descent

/-! ## Order -/

/-- An order in which a value comes before what is below it, and everything below the first of two
children before everything below the second. -/
structure Spread (kids : α → List α) (lt : α → α → Prop) : Prop where
  below : ∀ {x c a}, c ∈ kids a → Above kids x c → lt a x
  apart : ∀ {x y c c' a}, c ∈ kids a → c' ∈ kids a → lt c c' → Above kids x c → Above kids y c' → lt x y
  sorted : ∀ a, (kids a).Pairwise lt

/-- **A tree is read in order.** -/
theorem Spread.pairwise {lt : α → α → Prop} (hs : Spread kids lt) (h : Grown kids t) :
    t.preorder.Pairwise lt := by
  induction h with
  | @node a ts hmap hgrown ih =>
      have hkid : ∀ t ∈ ts, t.value ∈ kids a := fun t ht => hmap ▸ List.mem_map_of_mem ht
      rw [preorder_node, List.pairwise_cons]
      constructor
      · intro x hx
        obtain ⟨t, ht, hx⟩ := mem_preorder.mp hx
        exact hs.below (hkid t ht) ((hgrown t ht).mem_preorder.mp hx)
      · rw [preorder_eq, List.pairwise_flatMap]
        refine ⟨ih, ?_⟩
        have hsorted : ts.Pairwise fun t u => lt t.value u.value :=
          List.pairwise_map.mp (hmap ▸ hs.sorted a)
        refine hsorted.imp_of_mem fun ht hu hlt x hx y hy => ?_
        exact hs.apart (hkid _ ht) (hkid _ hu) hlt ((hgrown _ ht).mem_preorder.mp hx)
          ((hgrown _ hu).mem_preorder.mp hy)

end Forest
