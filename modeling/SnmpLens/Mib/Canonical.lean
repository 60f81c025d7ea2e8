import SnmpLens.Mib.Tree

/-!
# One tree for the loaded modules

Whatever orders the two passes of `buildTree` find the map in, the tree is the one that is
grown from the OIDs alone: what a node stands under is told by its arcs, and siblings are
in the order of their arcs. The text of an OID is compared arc by arc, each of them read
back as the number it was written from, so the order is that of the arcs.
-/

namespace SnmpLens.Mib

open Utf8 Strings Forest

/-! ## The text of an OID -/

/-- The numbers in the text of an OID. -/
def arcsOf (s : Octets) : List Nat := (s.splitOn 46).map value

/-- A text that some arcs print as. -/
def IsOid (s : Octets) : Prop := ∃ ns, ns ≠ [] ∧ (∀ n ∈ ns, n < 2 ^ 32) ∧ s = dotted ns

theorem arcsOf_dotted {ns : List Nat} (h : ns ≠ []) : arcsOf (dotted ns) = ns := by
  unfold arcsOf
  rw [splitOn_dotted h, List.map_map]
  exact (List.map_congr_left fun n _ => value_digits (Nat.lt_succ_self n)).trans (List.map_id _)

theorem IsOid.dotted_arcs {s : Octets} (h : IsOid s) : s = dotted (arcsOf s) := by
  obtain ⟨ns, hne, -, rfl⟩ := h
  rw [arcsOf_dotted hne]

theorem IsOid.inj {s t : Octets} (hs : IsOid s) (ht : IsOid t) (h : arcsOf s = arcsOf t) : s = t := by
  rw [hs.dotted_arcs, h, ← ht.dotted_arcs]

theorem atoi_formatUint {n : Nat} (h : n < 2 ^ 32) : atoi (formatUint n) = some (n : Int) := by
  obtain ⟨b, rest, hb⟩ := List.exists_cons_of_ne_nil (formatUint_ne_nil n)
  have hdigit := isDigit_iff.mp (isDigit_of_mem (n := n) (b := b) (by rw [hb]; exact List.mem_cons_self))
  have hminus : (formatUint n).head? ≠ some 45 := by
    rw [hb]
    rintro heq
    obtain rfl := Option.some.inj heq
    exact absurd hdigit.1 (by decide)
  have hplus : (formatUint n).head? ≠ some 43 := by
    rw [hb]
    rintro heq
    obtain rfl := Option.some.inj heq
    exact absurd hdigit.1 (by decide)
  have hread : parseUint 64 (formatUint n) = some n := parseUint_formatUint (by omega)
  unfold atoi Poll.parseInt Poll.unsigned
  rw [if_neg (not_or.mpr ⟨hminus, hplus⟩), hread, Option.bind_some, if_neg hminus, if_pos (by omega)]

/-- **The order of the texts is that of the arcs.** -/
theorem lessParts_formatUint {ms ns : List Nat} (hm : ∀ m ∈ ms, m < 2 ^ 32) (hn : ∀ n ∈ ns, n < 2 ^ 32) :
    lessParts (ms.map formatUint) (ns.map formatUint) = true ↔ ms < ns := by
  induction ms generalizing ns with
  | nil =>
      cases ns with
      | nil => exact iff_of_false Bool.false_ne_true (lt_irrefl _)
      | cons n ns => exact iff_of_true rfl (List.nil_lt_cons n ns)
  | cons m ms ih =>
      cases ns with
      | nil => exact iff_of_false Bool.false_ne_true (List.not_lt_nil _)
      | cons n ns =>
          have hrest : lessParts (ms.map formatUint) (ns.map formatUint) = true ↔ ms < ns :=
            ih (fun x hx => hm x (List.mem_cons_of_mem _ hx)) fun x hx => hn x (List.mem_cons_of_mem _ hx)
          rw [List.map_cons, List.map_cons, lessParts, atoi_formatUint (hm m List.mem_cons_self),
            atoi_formatUint (hn n List.mem_cons_self), List.cons_lt_cons_iff]
          dsimp only
          by_cases heq : m = n
          · subst heq
            rw [if_neg (not_not_intro rfl), hrest]
            exact ⟨fun h => .inr ⟨rfl, h⟩, fun h => h.elim (fun hlt => absurd hlt (lt_irrefl m)) And.right⟩
          · have hne : (m : Int) ≠ n := fun h => heq (Int.ofNat.inj h)
            rw [if_pos hne, decide_eq_true_eq, Int.ofNat_lt]
            exact ⟨.inl, fun h => h.elim id fun h => absurd h.1 heq⟩

theorem isOidLess_iff {s t : Octets} (hs : IsOid s) (ht : IsOid t) :
    isOidLess s t = true ↔ arcsOf s < arcsOf t := by
  obtain ⟨ms, hm, hmlt, rfl⟩ := hs
  obtain ⟨ns, hn, hnlt, rfl⟩ := ht
  unfold isOidLess
  rw [splitOn_dotted hm, splitOn_dotted hn, arcsOf_dotted hm, arcsOf_dotted hn,
    lessParts_formatUint hmlt hnlt]

/-! ## The text in front of the last dot -/

theorem lastIndex_append {b : UInt8} (s : Octets) {t : Octets} (h : b ∉ t) :
    lastIndex b (s ++ b :: t) = some s.length := by
  have hrev : (s ++ b :: t).reverse = t.reverse ++ b :: s.reverse := by simp
  have hidx : (t.reverse ++ b :: s.reverse).idxOf? b = some t.length := by
    have hnone : t.reverse.findIdx? (· == b) = none :=
      List.findIdx?_eq_none_iff.mpr fun x hx =>
        beq_eq_false_iff_ne.mpr fun heq => h (List.mem_reverse.mp (heq ▸ hx))
    rw [List.idxOf?, List.findIdx?_append, hnone, List.findIdx?_cons, if_pos (beq_self_eq_true b)]
    simp
  unfold lastIndex
  rw [hrev, hidx]
  simp

theorem lastIndex_eq_none {b : UInt8} {s : Octets} (h : b ∉ s) : lastIndex b s = none := by
  unfold lastIndex
  rw [List.idxOf?_eq_none_iff.mpr fun hin => h (List.mem_reverse.mp hin)]
  rfl

theorem parentOid_singleton (n : Nat) : parentOid (dotted [n]) = none := by
  unfold parentOid
  rw [dotted_singleton, lastIndex_eq_none (dot_not_mem_formatUint n)]
  rfl

theorem parentOid_append {ns : List Nat} (h : ns ≠ []) (n : Nat) :
    parentOid (dotted (ns ++ [n])) = some (dotted ns) := by
  unfold parentOid
  rw [dotted_append h (List.cons_ne_nil n []), dotted_singleton,
    lastIndex_append _ (dot_not_mem_formatUint n), Option.map_some, List.take_left]

/-- What is in front of the last dot is the OID without its last arc. -/
theorem parentOid_iff {s p : Octets} (hs : IsOid s) (hp : IsOid p) :
    parentOid s = some p ↔ ∃ n, arcsOf s = arcsOf p ++ [n] := by
  obtain ⟨ms, hm, hlt, rfl⟩ := hs
  obtain ⟨ns, hn, -, rfl⟩ := hp
  rw [arcsOf_dotted hm, arcsOf_dotted hn]
  rcases List.eq_nil_or_concat' ms with rfl | ⟨front, last, rfl⟩
  · exact absurd rfl hm
  · by_cases hfront : front = []
    · subst hfront
      rw [List.nil_append, parentOid_singleton]
      refine iff_of_false (fun h => by cases h) ?_
      rintro ⟨n, heq⟩
      have hlen : ns.length = 0 := by simpa using (congrArg List.length heq).symm
      exact hn (List.length_eq_zero_iff.mp hlen)
    · rw [parentOid_append hfront]
      constructor
      · intro h
        rw [dotted_inj hfront hn (Option.some.inj h)]
        exact ⟨last, rfl⟩
      · rintro ⟨n, heq⟩
        rw [(List.append_inj' heq rfl).1]

/-! ## The map -/

/-- The entries of the loaded modules, in load order. -/
def entries (gosmi : Modules) (loadedModuleNames : List Octets) : List Node :=
  loadedModuleNames.flatMap fun m => ((gosmi.getModule m).getD []).filterMap (entryOf gosmi)

theorem nodeMapOf_eq (gosmi : Modules) (loadedModuleNames : List Octets) :
    nodeMapOf gosmi loadedModuleNames = (entries gosmi loadedModuleNames).foldl addNode [] := by
  have hnodes : ∀ (nodes : List LoadedNode) (m : List Node),
      nodes.foldl (fun m node => (entryOf gosmi node).elim m (addNode m)) m
        = (nodes.filterMap (entryOf gosmi)).foldl addNode m := by
    intro nodes
    induction nodes with
    | nil => exact fun m => rfl
    | cons node nodes ih =>
        intro m
        rw [List.foldl_cons, ih]
        cases hentry : entryOf gosmi node with
        | none => rw [List.filterMap_cons_none hentry]; rfl
        | some n => rw [List.filterMap_cons_some hentry]; rfl
  unfold nodeMapOf entries
  generalize ([] : List Node) = m
  induction loadedModuleNames generalizing m with
  | nil => rfl
  | cons name names ih =>
      rw [List.foldl_cons, ih, List.flatMap_cons, List.foldl_append]
      congr 1
      cases hmod : gosmi.getModule name with
      | none => rfl
      | some nodes => exact hnodes nodes m

theorem find?_addNode (m : List Node) (n : Node) (o : Octets) :
    (addNode m n).find? (·.oid == o) = (m ++ [n]).find? (·.oid == o) := by
  unfold addNode
  split
  · rename_i hany
    obtain ⟨q, hq, heq⟩ := List.any_eq_true.mp hany
    rw [List.find?_append]
    by_cases hn : (n.oid == o) = true
    · -- the entry that is there already is found first
      have hfound : (m.find? (·.oid == o)).isSome = true :=
        List.find?_isSome.mpr ⟨q, hq, by rwa [beq_iff_eq.mp heq]⟩
      obtain ⟨r, hr⟩ := Option.isSome_iff_exists.mp hfound
      rw [hr]
      rfl
    · have hnone : [n].find? (·.oid == o) = none :=
        List.find?_eq_none.mpr fun x hx => (List.mem_singleton.mp hx) ▸ hn
      rw [hnone, Option.or_none]
  · rfl

theorem find?_foldl_addNode (es m : List Node) (o : Octets) :
    (es.foldl addNode m).find? (·.oid == o) = (m ++ es).find? (·.oid == o) := by
  induction es generalizing m with
  | nil => rw [List.append_nil]; rfl
  | cons e es ih =>
      rw [List.foldl_cons, ih, List.find?_append, find?_addNode, ← List.find?_append,
        List.append_assoc]
      rfl

theorem nodup_addNode {m : List Node} (h : (m.map Node.oid).Nodup) (n : Node) :
    ((addNode m n).map Node.oid).Nodup := by
  unfold addNode
  split
  · exact h
  · rename_i hany
    rw [List.map_append, List.map_singleton, List.nodup_append]
    refine ⟨h, List.nodup_singleton _, fun x hx y hy heq => hany ?_⟩
    obtain ⟨q, hq, rfl⟩ := List.mem_map.mp hx
    rw [List.mem_singleton.mp hy] at heq
    exact List.any_eq_true.mpr ⟨q, hq, beq_iff_eq.mpr heq⟩

theorem nodup_nodeMapOf (gosmi : Modules) (loadedModuleNames : List Octets) :
    ((nodeMapOf gosmi loadedModuleNames).map Node.oid).Nodup := by
  rw [nodeMapOf_eq]
  have hfold : ∀ (es m : List Node), (m.map Node.oid).Nodup →
      ((es.foldl addNode m).map Node.oid).Nodup := by
    intro es
    induction es with
    | nil => exact fun m h => h
    | cons e es ih => exact fun m h => ih _ (nodup_addNode h e)
  exact hfold _ [] List.nodup_nil

variable {n : Node}

theorem mem_iff_find? {m : List Node} (h : (m.map Node.oid).Nodup) :
    n ∈ m ↔ m.find? (·.oid == n.oid) = some n := by
  constructor
  · intro hn
    cases hfind : m.find? (·.oid == n.oid) with
    | none => exact absurd (List.find?_eq_none.mp hfind n hn) (by simp)
    | some q =>
        have heq : q.oid = n.oid := by simpa using List.find?_some hfind
        rw [List.inj_on_of_nodup_map h (List.mem_of_find?_eq_some hfind) hn heq]
  · exact List.mem_of_find?_eq_some

variable {gosmi : Modules}

/-- **The map has the first entry with each OID.** -/
theorem mem_nodeMapOf {loadedModuleNames : List Octets} :
    n ∈ nodeMapOf gosmi loadedModuleNames ↔
      (entries gosmi loadedModuleNames).find? (·.oid == n.oid) = some n := by
  rw [mem_iff_find? (nodup_nodeMapOf gosmi loadedModuleNames), nodeMapOf_eq, find?_foldl_addNode,
    List.nil_append]

/-! ## The first pass -/

theorem linkNode_children (m : List Node) (l : Links) (n : Node) (k : Octets) :
    (linkNode m l n).children k = l.children k
      ++ (if (parentNode m n.oid).any (·.oid == k) then [n.oid] else []) := by
  unfold linkNode
  cases parentNode m n.oid with
  | none => exact (List.append_nil _).symm
  | some p =>
      show Function.update l.children p.oid (l.children p.oid ++ [n.oid]) k = _
      by_cases hk : p.oid = k
      · subst hk
        rw [Function.update_self, Option.any_some, if_pos (beq_self_eq_true _)]
      · rw [Function.update_of_ne (fun h => hk h.symm), Option.any_some,
          if_neg (fun h => hk (beq_iff_eq.mp h)), List.append_nil]

/-- Under a key hang the nodes whose parent it is, in the order of the pass. -/
theorem links_children (m ns : List Node) (l : Links) (k : Octets) :
    (ns.foldl (linkNode m) l).children k = l.children k
      ++ (ns.filter fun n => (parentNode m n.oid).any (·.oid == k)).map Node.oid := by
  induction ns generalizing l with
  | nil => exact (List.append_nil _).symm
  | cons n ns ih =>
      rw [List.foldl_cons, ih, linkNode_children, List.append_assoc]
      by_cases hk : (parentNode m n.oid).any (·.oid == k) = true
      · rw [if_pos hk, List.filter_cons, if_pos hk]
        rfl
      · rw [if_neg hk, List.filter_cons, if_neg hk]
        rfl

theorem linkNode_self (m : List Node) (l : Links) (n : Node) (o : Octets) :
    ((linkNode m l n).parent o, (linkNode m l n).isChild o)
      = if o = n.oid then
          ((parentNode m o).elim (l.parent o) Node.name, l.isChild o || (parentNode m o).isSome)
        else (l.parent o, l.isChild o) := by
  unfold linkNode
  by_cases ho : o = n.oid
  · subst ho
    rw [if_pos rfl]
    cases parentNode m n.oid with
    | none => simp
    | some p => simp
  · rw [if_neg ho]
    cases parentNode m n.oid with
    | none => rfl
    | some p => simp [Function.update_of_ne ho]

theorem links_self (m ns : List Node) (l : Links) (o : Octets) :
    ((ns.foldl (linkNode m) l).parent o, (ns.foldl (linkNode m) l).isChild o)
      = if o ∈ ns.map Node.oid then
          ((parentNode m o).elim (l.parent o) Node.name, l.isChild o || (parentNode m o).isSome)
        else (l.parent o, l.isChild o) := by
  induction ns generalizing l with
  | nil => rfl
  | cons n ns ih =>
      have hself := linkNode_self m l n o
      rw [List.foldl_cons, ih, List.map_cons]
      by_cases ho : o = n.oid
      · rw [if_pos ho] at hself
        obtain ⟨hparent, hchild⟩ := Prod.mk.inj hself
        rw [if_pos (List.mem_cons.mpr (.inl ho)), hparent, hchild]
        cases parentNode m o with
        | none => simp
        | some p => simp
      · rw [if_neg ho] at hself
        obtain ⟨hparent, hchild⟩ := Prod.mk.inj hself
        rw [hparent, hchild]
        by_cases hin : o ∈ ns.map Node.oid
        · rw [if_pos hin, if_pos (List.mem_cons_of_mem _ hin)]
        · rw [if_neg hin, if_neg fun h => (List.mem_cons.mp h).elim ho hin]

/-! ## Sorting -/

section sorting

variable {α : Type} {oid : α → Octets} {xs ys : List α}

theorem sortSlice_perm (oid : α → Octets) (xs : List α) : (sortSlice oid xs).Perm xs :=
  List.perm_insertionSort _ xs

theorem not_less_iff {s t : Octets} (hs : IsOid s) (ht : IsOid t) :
    (!isOidLess t s) = true ↔ arcsOf s ≤ arcsOf t := by
  rw [Bool.not_eq_true', ← Bool.not_eq_true, isOidLess_iff ht hs, not_lt]

theorem sortSlice_pairwise (hoid : ∀ x ∈ xs, IsOid (oid x)) :
    (sortSlice oid xs).Pairwise fun a b => arcsOf (oid a) ≤ arcsOf (oid b) := by
  let le (a b : α) : Prop := arcsOf (oid a) ≤ arcsOf (oid b)
  have htotal : Std.Total le := ⟨fun a b => le_total _ _⟩
  have htrans : IsTrans α le := ⟨fun _ _ _ hab hbc => le_trans (α := List Nat) hab hbc⟩
  have heq : sortSlice oid xs = xs.insertionSort le := by
    have hmap := List.map_insertionSort (fun a b => (!isOidLess (oid b) (oid a)) = true) le id xs
      fun a ha b hb => not_less_iff (hoid a ha) (hoid b hb)
    rwa [List.map_id, List.map_id] at hmap
  rw [heq]
  exact List.pairwise_insertionSort le xs

theorem sortSlice_strict (hoid : ∀ x ∈ xs, IsOid (oid x)) (hnodup : (xs.map oid).Nodup) :
    (sortSlice oid xs).Pairwise fun a b => arcsOf (oid a) < arcsOf (oid b) := by
  have hperm := sortSlice_perm oid xs
  have hne : (sortSlice oid xs).Pairwise fun a b => oid a ≠ oid b :=
    List.pairwise_map.mp ((hperm.map oid).nodup_iff.mpr hnodup)
  refine ((sortSlice_pairwise hoid).and hne).imp_of_mem fun ha hb hab => ?_
  refine lt_of_le_of_ne hab.1 fun heq => hab.2 ?_
  exact (hoid _ (hperm.mem_iff.mp ha)).inj (hoid _ (hperm.mem_iff.mp hb)) heq

theorem sortSlice_congr (hoid : ∀ x ∈ xs, IsOid (oid x)) (hnodup : (xs.map oid).Nodup)
    (h : xs.Perm ys) : sortSlice oid xs = sortSlice oid ys := by
  have hoid' : ∀ y ∈ ys, IsOid (oid y) := fun y hy => hoid y (h.mem_iff.mpr hy)
  refine List.Perm.eq_of_pairwise ?_ (sortSlice_pairwise hoid) (sortSlice_pairwise hoid')
    ((sortSlice_perm oid xs).trans (h.trans (sortSlice_perm oid ys).symm))
  intro a b ha hb hab hba
  have ha' := (sortSlice_perm oid xs).mem_iff.mp ha
  have hb' := h.mem_iff.mpr ((sortSlice_perm oid ys).mem_iff.mp hb)
  exact List.inj_on_of_nodup_map hnodup ha' hb'
    ((hoid a ha').inj (hoid b hb') (le_antisymm hab hba))

theorem sortSlice_map {β : Type} (f : β → α) (zs : List β) :
    sortSlice oid (zs.map f) = (sortSlice (fun z => oid (f z)) zs).map f :=
  (List.map_insertionSort _ _ f zs fun _ _ _ _ => Iff.rfl).symm

end sorting

/-! ## The forest of some nodes -/

/-- A node with the name of its parent. -/
def linked (m : List Node) (n : Node) : Node :=
  { n with parent := (parentNode m n.oid).elim [] Node.name }

def linkedNodes (m : List Node) : List Node := m.map (linked m)

/-- The nodes that stand under one, in order. -/
def kidsOf (nodes : List Node) (n : Node) : List Node :=
  sortSlice Node.oid (nodes.filter fun c => decide (parentNode nodes c.oid = some n))

/-- **What the tree is for**: every node under the one whose OID is its own without the last arc, and
siblings in order. -/
def forestOf (nodes : List Node) : List (Rose Node) :=
  (sortSlice Node.oid (nodes.filter fun n => (parentNode nodes n.oid).isNone)).map
    (grow (kidsOf nodes) (depth nodes))

/-- Nodes with OIDs, no two of them the same. -/
structure Apart (nodes : List Node) : Prop where
  isOid : ∀ n ∈ nodes, IsOid n.oid
  nodup : (nodes.map Node.oid).Nodup

variable {m nodes : List Node}

theorem oid_linkedNodes (m : List Node) : (linkedNodes m).map Node.oid = m.map Node.oid := by
  unfold linkedNodes
  rw [List.map_map]
  rfl

theorem Apart.linked (h : Apart m) : Apart (linkedNodes m) := by
  refine ⟨fun n hn => ?_, by rw [oid_linkedNodes]; exact h.nodup⟩
  obtain ⟨q, hq, rfl⟩ := List.mem_map.mp hn
  exact h.isOid q hq

theorem Apart.inj (h : Apart m) {n q : Node} (hn : n ∈ m) (hq : q ∈ m) (heq : n.oid = q.oid) : n = q :=
  List.inj_on_of_nodup_map h.nodup hn hq heq

theorem find?_linkedNodes (m : List Node) (o : Octets) :
    (linkedNodes m).find? (·.oid == o) = (m.find? (·.oid == o)).map (Mib.linked m) := by
  unfold linkedNodes
  rw [List.find?_map]
  rfl

theorem parentNode_linkedNodes (m : List Node) (o : Octets) :
    parentNode (linkedNodes m) o = (parentNode m o).map (Mib.linked m) := by
  unfold parentNode
  cases parentOid o with
  | none => rfl
  | some p => exact find?_linkedNodes m p

theorem mem_of_parentNode {o : Octets} {p : Node} (h : parentNode m o = some p) : p ∈ m := by
  obtain ⟨k, -, hk⟩ := Option.bind_eq_some_iff.mp h
  exact List.mem_of_find?_eq_some hk

theorem parentNode_linked_iff (h : Apart m) (hn : n ∈ linkedNodes m) (o : Octets) :
    parentNode (linkedNodes m) o = some n ↔ (parentNode m o).any (·.oid == n.oid) = true := by
  obtain ⟨q, hq, rfl⟩ := List.mem_map.mp hn
  rw [parentNode_linkedNodes]
  cases hp : parentNode m o with
  | none => simp
  | some p =>
      rw [Option.map_some, Option.any_some, beq_iff_eq]
      constructor
      · intro heq
        have hoid := congrArg Node.oid (Option.some.inj heq)
        exact hoid
      · intro heq
        rw [h.inj (mem_of_parentNode hp) hq heq]

theorem sortChildren_eq (ts : List (Rose Node)) : sortChildren ts = ts.map sortNodes := by
  induction ts with
  | nil => rfl
  | cons t ts ih => rw [sortChildren, ih, List.map_cons]

theorem sortNodes_grow {children kids : Node → List Node}
    (hkids : ∀ n ∈ nodes, sortSlice Node.oid (children n) = kids n)
    (hin : ∀ n ∈ nodes, ∀ c ∈ children n, c ∈ nodes) (fuel : Nat) (hn : n ∈ nodes) :
    sortNodes (grow children fuel n) = grow kids fuel n := by
  induction fuel generalizing n with
  | zero => rw [grow, sortNodes]; rfl
  | succ fuel ih =>
      have hbelow : ((children n).map (grow children fuel)).map sortNodes
          = (children n).map (grow kids fuel) := by
        rw [List.map_map]
        exact List.map_congr_left fun c hc => ih (hin n hn c hc)
      rw [grow, sortNodes, sortChildren_eq, hbelow, sortSlice_map, grow, ← hkids n hn]
      simp only [value_grow]

/-- **The tree of the loaded modules is their forest**, whatever orders the map is found in. -/
theorem buildTree_eq {names : List Octets} {range₁ range₂ : List Node → List Node}
    (h : Apart (nodeMapOf gosmi names)) (h₁ : ∀ l, (range₁ l).Perm l) (h₂ : ∀ l, (range₂ l).Perm l)
    :
    buildTree gosmi range₁ range₂ names = forestOf (linkedNodes (nodeMapOf gosmi names)) := by
  unfold buildTree
  dsimp only
  generalize nodeMapOf gosmi names = m at h
  generalize hlinks : (range₁ m).foldl (linkNode m) noLinks = links
  have hself : ∀ n ∈ m, links.parent n.oid = (parentNode m n.oid).elim [] Node.name ∧
      links.isChild n.oid = (parentNode m n.oid).isSome := by
    intro n hn
    have hall := links_self m (range₁ m) noLinks n.oid
    rw [if_pos (List.mem_map_of_mem ((h₁ m).mem_iff.mpr hn)), hlinks] at hall
    exact Prod.mk.inj hall
  have hnodes : (m.map fun n => { n with parent := links.parent n.oid }) = linkedNodes m := by
    refine List.map_congr_left fun n hn => ?_
    rw [(hself n hn).1]
    rfl
  have hlinked := h.linked
  -- what the pointers lead to is what stands under the node
  have hchildren : ∀ n ∈ linkedNodes m,
      ((links.children n.oid).filterMap fun oid => (linkedNodes m).find? (·.oid == oid)).Perm
        ((linkedNodes m).filter fun c => decide (parentNode (linkedNodes m) c.oid = some n)) := by
    intro n hn
    have hkeys := links_children m (range₁ m) noLinks n.oid
    rw [hlinks] at hkeys
    have hleft : (links.children n.oid).filterMap (fun oid => (linkedNodes m).find? (·.oid == oid))
        = ((range₁ m).filter fun c => (parentNode m c.oid).any (·.oid == n.oid)).map (Mib.linked m) := by
      rw [hkeys, show noLinks.children n.oid = [] from rfl, List.nil_append, List.filterMap_map,
        ← List.filterMap_eq_map]
      refine List.filterMap_congr fun c hc => ?_
      have hcm : c ∈ m := (h₁ m).mem_iff.mp (List.mem_filter.mp hc).1
      show (linkedNodes m).find? (·.oid == c.oid) = some (Mib.linked m c)
      rw [find?_linkedNodes, (mem_iff_find? h.nodup).mp hcm]
      rfl
    have hright : (linkedNodes m).filter (fun c => decide (parentNode (linkedNodes m) c.oid = some n))
        = (m.filter fun c => (parentNode m c.oid).any (·.oid == n.oid)).map (Mib.linked m) := by
      rw [linkedNodes, List.filter_map, ← linkedNodes]
      congr 1
      refine List.filter_congr fun c _ => ?_
      rw [Bool.eq_iff_iff]
      exact decide_eq_true_iff.trans (parentNode_linked_iff h hn c.oid)
    rw [hleft, hright]
    exact ((h₁ m).filter _).map _
  have hkids : ∀ n ∈ linkedNodes m, sortSlice Node.oid
      ((links.children n.oid).filterMap fun oid => (linkedNodes m).find? (·.oid == oid))
        = kidsOf (linkedNodes m) n := by
    intro n hn
    have hperm := hchildren n hn
    have hsub := List.filter_sublist (p := fun c => decide (parentNode (linkedNodes m) c.oid = some n))
      (l := linkedNodes m)
    refine sortSlice_congr (fun c hc => ?_) ?_ hperm
    · exact hlinked.isOid c (hsub.subset (hperm.mem_iff.mp hc))
    · exact (hperm.map Node.oid).nodup_iff.mpr (hlinked.nodup.sublist (hsub.map _))
  have hin : ∀ n ∈ linkedNodes m, ∀ c ∈ (links.children n.oid).filterMap
      (fun oid => (linkedNodes m).find? (·.oid == oid)), c ∈ linkedNodes m :=
    fun n hn c hc => (List.mem_filter.mp ((hchildren n hn).mem_iff.mp hc)).1
  have hroots : (range₂ (linkedNodes m)).filter (fun n => !links.isChild n.oid)
      = (range₂ (linkedNodes m)).filter fun n => (parentNode (linkedNodes m) n.oid).isNone := by
    refine List.filter_congr fun n hn => ?_
    obtain ⟨q, hq, rfl⟩ := List.mem_map.mp ((h₂ _).mem_iff.mp hn)
    rw [parentNode_linkedNodes, Option.isNone_map, ← Option.not_isSome]
    exact congrArg (!·) (hself q hq).2
  rw [hnodes, hroots]
  unfold forestOf
  have hmap : ((range₂ (linkedNodes m)).filter fun n => (parentNode (linkedNodes m) n.oid).isNone).map
        (fun root => sortNodes (grow (fun n => (links.children n.oid).filterMap fun oid =>
          (linkedNodes m).find? (·.oid == oid)) (depth (linkedNodes m)) root))
      = ((range₂ (linkedNodes m)).filter fun n => (parentNode (linkedNodes m) n.oid).isNone).map
        (grow (kidsOf (linkedNodes m)) (depth (linkedNodes m))) := by
    refine List.map_congr_left fun n hn => ?_
    exact sortNodes_grow hkids hin _ ((h₂ _).mem_iff.mp (List.mem_filter.mp hn).1)
  rw [hmap, sortSlice_map]
  simp only [value_grow]
  congr 1
  have hperm := (h₂ (linkedNodes m)).filter fun n => (parentNode (linkedNodes m) n.oid).isNone
  refine sortSlice_congr (fun n hn => ?_) ?_ hperm
  · exact hlinked.isOid n ((h₂ _).mem_iff.mp (List.mem_filter.mp hn).1)
  · refine (hperm.map Node.oid).nodup_iff.mpr (hlinked.nodup.sublist ?_)
    exact List.filter_sublist.map _

/-! ## What is in the forest -/

theorem mem_kidsOf {n c : Node} : c ∈ kidsOf nodes n ↔ c ∈ nodes ∧ parentNode nodes c.oid = some n := by
  unfold kidsOf
  rw [(sortSlice_perm _ _).mem_iff, List.mem_filter, decide_eq_true_iff]

/-- The OID of the first is that of the second and one arc more. -/
def Under (c p : Node) : Prop := ∃ arc, arcsOf c.oid = arcsOf p.oid ++ [arc]

theorem parentNode_iff (h : Apart nodes) {c p : Node} (hc : c ∈ nodes) :
    parentNode nodes c.oid = some p ↔ p ∈ nodes ∧ Under c p := by
  constructor
  · intro hparent
    have hp := mem_of_parentNode hparent
    obtain ⟨k, hk, hfind⟩ := Option.bind_eq_some_iff.mp hparent
    obtain rfl : p.oid = k := by simpa using List.find?_some hfind
    exact ⟨hp, (parentOid_iff (h.isOid c hc) (h.isOid p hp)).mp hk⟩
  · rintro ⟨hp, hunder⟩
    have hk := (parentOid_iff (h.isOid c hc) (h.isOid p hp)).mpr hunder
    unfold parentNode
    rw [hk, Option.bind_some, (mem_iff_find? h.nodup).mp hp]

theorem Under.length_lt (h : Apart nodes) {c p : Node} (hc : c ∈ nodes) (hp : p ∈ nodes)
    (hu : Under c p) : p.oid.length < c.oid.length := by
  obtain ⟨arc, harc⟩ := hu
  obtain ⟨ns, hne, -, hns⟩ := h.isOid p hp
  have harcs : arcsOf p.oid = ns := by rw [hns, arcsOf_dotted hne]
  have htext := (h.isOid c hc).dotted_arcs
  rw [harc, harcs, dotted_append hne (List.cons_ne_nil arc [])] at htext
  rw [htext, hns, List.length_append, List.length_cons]
  omega

theorem length_le_depth (h : n ∈ nodes) : n.oid.length ≤ depth nodes := by
  induction nodes with
  | nil => cases h
  | cons q nodes ih =>
      show _ ≤ max q.oid.length (depth nodes)
      rcases List.mem_cons.mp h with rfl | h
      · exact Nat.le_max_left _ _
      · exact Nat.le_trans (ih h) (Nat.le_max_right _ _)

theorem descent (h : Apart nodes) :
    Descent (kidsOf nodes) fun n => depth nodes - n.oid.length where
  unique := by
    intro x a b ha hb
    exact Option.some.inj ((mem_kidsOf.mp ha).2.symm.trans (mem_kidsOf.mp hb).2)
  lower := by
    intro a c hc
    obtain ⟨hin, hparent⟩ := mem_kidsOf.mp hc
    obtain ⟨ha, hunder⟩ := (parentNode_iff h hin).mp hparent
    have hlt := hunder.length_lt h hin ha
    have hle := length_le_depth hin
    omega
  nodup := by
    intro a
    refine (sortSlice_perm _ _).nodup_iff.mpr ?_
    exact (List.Nodup.of_map _ h.nodup).sublist List.filter_sublist

/-- In the order of the arcs. -/
def Node.Precedes (n q : Node) : Prop := arcsOf n.oid < arcsOf q.oid

theorem prefix_of_above (h : Apart nodes) {x a : Node} (hup : Above (kidsOf nodes) x a) :
    arcsOf a.oid <+: arcsOf x.oid := by
  induction hup with
  | refl => exact List.prefix_refl _
  | tail _ hstep ih =>
      obtain ⟨hin, hparent⟩ := mem_kidsOf.mp hstep
      obtain ⟨-, arc, harc⟩ := (parentNode_iff h hin).mp hparent
      exact (harc ▸ List.prefix_append _ _ : _ <+: _).trans ih

theorem spread (h : Apart nodes) : Spread (kidsOf nodes) Node.Precedes where
  below := by
    intro x c a hc hup
    obtain ⟨hin, hparent⟩ := mem_kidsOf.mp hc
    obtain ⟨-, arc, harc⟩ := (parentNode_iff h hin).mp hparent
    obtain ⟨rest, hrest⟩ := prefix_of_above h hup
    rw [harc, List.append_assoc] at hrest
    refine lt_of_le_of_ne (Prefix.prefix_le ⟨_, hrest⟩) fun heq => ?_
    have hlen := congrArg List.length (hrest.trans heq.symm)
    rw [List.length_append] at hlen
    simp at hlen
  apart := by
    intro x y c c' a hc hc' hlt hx hy
    obtain ⟨hin, hparent⟩ := mem_kidsOf.mp hc
    obtain ⟨hin', hparent'⟩ := mem_kidsOf.mp hc'
    obtain ⟨-, arc, harc⟩ := (parentNode_iff h hin).mp hparent
    obtain ⟨-, arc', harc'⟩ := (parentNode_iff h hin').mp hparent'
    have hlen : (arcsOf c.oid).length = (arcsOf c'.oid).length := by simp [harc, harc']
    refine not_le.mp fun hle => ?_
    -- what lies between an OID and one under it is under it too
    have hbetween : arcsOf c'.oid ≤ arcsOf x.oid :=
      le_trans (Prefix.prefix_le (prefix_of_above h hy)) hle
    have hpre := Prefix.prefix_of_between (le_of_lt hlt) hbetween (prefix_of_above h hx)
    have hlt' : arcsOf c.oid < arcsOf c'.oid := hlt
    exact absurd (hpre.eq_of_length hlen) (ne_of_lt hlt')
  sorted := by
    intro a
    have hsub := List.filter_sublist (p := fun c => decide (parentNode nodes c.oid = some a)) (l := nodes)
    exact sortSlice_strict (fun c hc => h.isOid c (hsub.subset hc)) (h.nodup.sublist (hsub.map _))

theorem grown_forestOf (h : Apart nodes) : ∀ t ∈ forestOf nodes, Grown (kidsOf nodes) t := by
  intro t ht
  obtain ⟨n, -, rfl⟩ := List.mem_map.mp ht
  exact grown_grow (descent h).lower (Nat.sub_le _ _)

theorem mem_roots : n ∈ (forestOf nodes).map Rose.value ↔
    n ∈ nodes ∧ parentNode nodes n.oid = none := by
  have hvalues : (forestOf nodes).map Rose.value
      = sortSlice Node.oid (nodes.filter fun n => (parentNode nodes n.oid).isNone) := by
    unfold forestOf
    rw [List.map_map]
    exact (List.map_congr_left fun n _ => value_grow _ n).trans (List.map_id _)
  rw [hvalues, (sortSlice_perm _ _).mem_iff, List.mem_filter, Option.isNone_iff_eq_none]

/-- **The forest holds the nodes**, and nothing else. -/
theorem mem_forestOf (h : Apart nodes) : n ∈ preorder (forestOf nodes) ↔ n ∈ nodes := by
  constructor
  · intro hn
    obtain ⟨t, ht, hn⟩ := mem_preorder.mp hn
    have hup := ((grown_forestOf h t ht).mem_preorder).mp hn
    rcases Relation.ReflTransGen.cases_head hup with rfl | ⟨b, hb, -⟩
    · exact (mem_roots.mp (List.mem_map_of_mem ht)).1
    · exact (mem_kidsOf.mp hb).1
  · -- by the length of the OID: what a node stands under has a shorter one
    induction hlen : n.oid.length using Nat.strong_induction_on generalizing n with
    | _ len ih =>
        intro hn
        cases hparent : parentNode nodes n.oid with
        | none =>
            obtain ⟨t, ht, rfl⟩ := List.mem_map.mp (mem_roots.mpr ⟨hn, hparent⟩)
            exact mem_preorder.mpr ⟨t, ht, t.value_mem_preorder⟩
        | some p =>
            obtain ⟨hp, hunder⟩ := (parentNode_iff h hn).mp hparent
            have hshort := hunder.length_lt h hn hp
            obtain ⟨t, ht, hin⟩ := mem_preorder.mp (ih p.oid.length (by omega) rfl hp)
            have hup := ((grown_forestOf h t ht).mem_preorder).mp hin
            refine mem_preorder.mpr ⟨t, ht, ((grown_forestOf h t ht).mem_preorder).mpr ?_⟩
            exact .head (mem_kidsOf.mpr ⟨hn, hparent⟩) hup

/-! ## The tree -/

/-- A forest in the one form it can have. -/
structure Canonical (ts : List (Rose Node)) : Prop where
  /-- Every OID is there once. -/
  once : ((preorder ts).map Node.oid).Nodup
  /-- A node stands under the one whose OID is its own without the last arc. -/
  placed : ∀ n ∈ preorder ts, ∀ p ∈ preorder ts, Under n p →
    ∃ t ∈ trees ts, t.value = p ∧ n ∈ t.children.map Rose.value
  /-- Nothing else stands under a node, and it has the node's name. -/
  child : ∀ t ∈ trees ts, ∀ c ∈ t.children.map Rose.value, Under c t.value ∧ c.parent = t.value.name
  /-- A root stands under nothing. -/
  root : ∀ r ∈ ts.map Rose.value, r.parent = [] ∧ ∀ n ∈ preorder ts, ¬ Under r n
  /-- The roots are in order. -/
  roots : (ts.map Rose.value).Pairwise Node.Precedes
  /-- So are the children of every node. -/
  siblings : ∀ t ∈ trees ts, (t.children.map Rose.value).Pairwise Node.Precedes
  /-- A tree is read in order. -/
  read : ∀ t ∈ ts, t.preorder.Pairwise Node.Precedes

theorem children_forestOf (h : Apart nodes) :
    ∀ t ∈ trees (forestOf nodes), t.children.map Rose.value = kidsOf nodes t.value := by
  intro t ht
  obtain ⟨u, hu, ht⟩ := mem_trees.mp ht
  exact (grown_forestOf h u hu).children t ht

theorem mem_linkedNodes (hn : n ∈ linkedNodes m) :
    n.parent = (parentNode (linkedNodes m) n.oid).elim [] Node.name := by
  obtain ⟨q, -, rfl⟩ := List.mem_map.mp hn
  rw [parentNode_linkedNodes]
  show (parentNode m q.oid).elim [] Node.name = ((parentNode m q.oid).map (linked m)).elim [] Node.name
  cases parentNode m q.oid with
  | none => rfl
  | some p => rfl

theorem canonical_forestOf (h : Apart m) : Canonical (forestOf (linkedNodes m)) := by
  have hl := h.linked
  have hroots : (forestOf (linkedNodes m)).map Rose.value = sortSlice Node.oid
      ((linkedNodes m).filter fun n => (parentNode (linkedNodes m) n.oid).isNone) := by
    unfold forestOf
    rw [List.map_map]
    exact (List.map_congr_left fun n _ => value_grow _ n).trans (List.map_id _)
  have hsub := List.filter_sublist (p := fun n => (parentNode (linkedNodes m) n.oid).isNone)
    (l := linkedNodes m)
  have hsorted : ((forestOf (linkedNodes m)).map Rose.value).Pairwise Node.Precedes := by
    rw [hroots]
    exact sortSlice_strict (fun c hc => hl.isOid c (hsub.subset hc)) (hl.nodup.sublist (hsub.map _))
  have hfree : ∀ t ∈ forestOf (linkedNodes m), ∀ a, t.value ∉ kidsOf (linkedNodes m) a := by
    intro t ht a ha
    have hnone := (mem_roots.mp (List.mem_map_of_mem ht)).2
    rw [(mem_kidsOf.mp ha).2] at hnone
    cases hnone
  have hnodup : (preorder (forestOf (linkedNodes m))).Nodup := by
    refine (descent hl).nodup_forest (grown_forestOf hl) ?_ hfree
    rw [hroots]
    exact (sortSlice_perm _ _).nodup_iff.mpr ((List.Nodup.of_map _ hl.nodup).sublist hsub)
  refine ⟨?_, ?_, ?_, ?_, hsorted, ?_, ?_⟩
  · refine List.Nodup.map_on (fun n hn q hq heq => ?_) hnodup
    exact hl.inj ((mem_forestOf hl).mp hn) ((mem_forestOf hl).mp hq) heq
  · intro n hn p hp hunder
    rw [← map_trees] at hp
    obtain ⟨t, ht, rfl⟩ := List.mem_map.mp hp
    refine ⟨t, ht, rfl, ?_⟩
    rw [children_forestOf hl t ht]
    have hin := (mem_forestOf hl).mp hn
    have hpin := (mem_forestOf hl).mp (map_trees (forestOf (linkedNodes m)) ▸ hp)
    exact mem_kidsOf.mpr ⟨hin, (parentNode_iff hl hin).mpr ⟨hpin, hunder⟩⟩
  · intro t ht c hc
    rw [children_forestOf hl t ht] at hc
    obtain ⟨hin, hparent⟩ := mem_kidsOf.mp hc
    refine ⟨((parentNode_iff hl hin).mp hparent).2, ?_⟩
    rw [mem_linkedNodes hin, hparent]
    rfl
  · intro r hr
    obtain ⟨hin, hnone⟩ := mem_roots.mp hr
    refine ⟨?_, fun n hn hunder => ?_⟩
    · rw [mem_linkedNodes hin, hnone]
      rfl
    · have hparent := (parentNode_iff hl hin).mpr ⟨(mem_forestOf hl).mp hn, hunder⟩
      rw [hnone] at hparent
      cases hparent
  · intro t ht
    rw [children_forestOf hl t ht]
    exact (spread hl).sorted t.value
  · exact fun t ht => (spread hl).pairwise (grown_forestOf hl t ht)

theorem Node.Precedes.trans {a b c : Node} (h : a.Precedes b) (h' : b.Precedes c) : a.Precedes c :=
  lt_trans (α := List Nat) h h'

/-- A canonical forest is read in order where no root stands before a node of the trees before it. -/
theorem Canonical.read_iff {ts : List (Rose Node)} (h : Canonical ts) :
    (preorder ts).Pairwise Node.Precedes ↔
      ∀ t ∈ ts, ∀ u ∈ ts, t.value.Precedes u.value → ∀ n ∈ t.preorder, n.Precedes u.value := by
  have hroots : ts.Pairwise fun t u => t.value.Precedes u.value := List.pairwise_map.mp h.roots
  rw [preorder_eq, List.pairwise_flatMap]
  constructor
  · rintro ⟨-, hacross⟩ t ht u hu hlt n hn
    have hboth := hacross.and hroots
    obtain ⟨i, hi, rfl⟩ := List.mem_iff_getElem.mp ht
    obtain ⟨j, hj, rfl⟩ := List.mem_iff_getElem.mp hu
    rcases Nat.lt_trichotomy i j with hij | rfl | hij
    · exact (List.pairwise_iff_getElem.mp hboth i j hi hj hij).1 n hn _ (Rose.value_mem_preorder _)
    · exact absurd hlt (lt_irrefl (α := List Nat) _)
    · exact absurd (hlt.trans (List.pairwise_iff_getElem.mp hroots j i hj hi hij))
        (lt_irrefl (α := List Nat) _)
  · intro hall
    refine ⟨h.read, hroots.imp_of_mem fun ht hu hlt x hx y hy => ?_⟩
    have hx' := hall _ ht _ hu hlt x hx
    rename_i t u
    cases u with
    | node a us =>
        rw [preorder_node] at hy
        rcases List.mem_cons.mp hy with rfl | hy
        · exact hx'
        · have hread := h.read _ hu
          rw [preorder_node, List.pairwise_cons] at hread
          exact hx'.trans (hread.1 y hy)

theorem isOid_entries (hprint : ∀ oid, gosmi.oidString oid = dotted (oid.map UInt32.toNat))
    {names : List Octets} (h : n ∈ entries gosmi names) : IsOid n.oid ∧ n.parent = [] := by
  obtain ⟨name, -, hn⟩ := List.mem_flatMap.mp h
  obtain ⟨node, -, hentry⟩ := List.mem_filterMap.mp hn
  obtain ⟨oid, -, hoid⟩ := Option.bind_eq_some_iff.mp hentry
  dsimp only at hoid
  split at hoid
  · cases hoid
  · rename_i hne
    obtain rfl := Option.some.inj hoid
    rw [hprint] at hne
    refine ⟨⟨oid.map UInt32.toNat, fun hnil => hne (by rw [hnil]; rfl), fun x hx => ?_, hprint oid⟩, rfl⟩
    obtain ⟨w, -, rfl⟩ := List.mem_map.mp hx
    exact w.toNat_lt

theorem apart_nodeMapOf (hprint : ∀ oid, gosmi.oidString oid = dotted (oid.map UInt32.toNat))
    (names : List Octets) :
    Apart (nodeMapOf gosmi names) :=
  ⟨fun _ hn => (isOid_entries hprint (List.mem_of_find?_eq_some (mem_nodeMapOf.mp hn))).1,
    nodup_nodeMapOf gosmi names⟩

/--
**The tree is canonical.**

It holds the first entry with each OID in load order, once, each under the one whose OID is its
own without the last arc; siblings are in order, and so is every root's tree when it is read. All
of it is read in order exactly where no root stands before a node of a tree before it. And the
orders the map is found in make no difference.
-/
theorem tree_canonical {gosmi : Modules}
    (hprint : ∀ oid, gosmi.oidString oid = dotted (oid.map UInt32.toNat)) (names : List Octets)
    {range₁ range₂ : List Node → List Node} (h₁ : ∀ l, (range₁ l).Perm l)
    (h₂ : ∀ l, (range₂ l).Perm l) :
    let ts := buildTree gosmi range₁ range₂ names
    Canonical ts ∧
    (∀ n, (∃ q ∈ preorder ts, { q with parent := [] } = n) ↔
      (entries gosmi names).find? (·.oid == n.oid) = some n) ∧
    ((preorder ts).Pairwise Node.Precedes ↔
      ∀ t ∈ ts, ∀ u ∈ ts, t.value.Precedes u.value → ∀ n ∈ t.preorder, n.Precedes u.value) ∧
    ∀ range₁' range₂' : List Node → List Node, (∀ l, (range₁' l).Perm l) → (∀ l, (range₂' l).Perm l) →
      buildTree gosmi range₁' range₂' names = ts := by
  intro ts
  have hapart := apart_nodeMapOf hprint names
  have heq : ts = forestOf (linkedNodes (nodeMapOf gosmi names)) := buildTree_eq hapart h₁ h₂
  have hcanonical : Canonical ts := heq ▸ canonical_forestOf hapart
  refine ⟨hcanonical, fun n => ?_, hcanonical.read_iff, ?_⟩
  · rw [← mem_nodeMapOf]
    have hbare : ∀ q ∈ nodeMapOf gosmi names, q.parent = [] := fun q hq =>
      (isOid_entries hprint (List.mem_of_find?_eq_some (mem_nodeMapOf.mp hq))).2
    constructor
    · rintro ⟨q, hq, rfl⟩
      obtain ⟨r, hr, rfl⟩ := List.mem_map.mp ((mem_forestOf hapart.linked).mp (heq ▸ hq))
      have hself : { linked (nodeMapOf gosmi names) r with parent := [] } = r := by
        rw [← hbare r hr]
        rfl
      rwa [hself]
    · intro hn
      refine ⟨linked (nodeMapOf gosmi names) n, ?_, ?_⟩
      · rw [heq, mem_forestOf hapart.linked]
        exact List.mem_map_of_mem hn
      · rw [← hbare n hn]
        rfl
  · intro range₁' range₂' h₁' h₂'
    rw [heq, buildTree_eq hapart h₁' h₂']

/-! ### An OID that skips an arc -/

/-- A module of three nodes; the third stands two arcs below the first. -/
def gapped : Modules where
  getModule _ := some (List.map (fun (name, oid) =>
    { name := octets name, oid := some oid, description := [], kind := octets "Node", access := [],
      status := octets "Unknown", type := none })
    [("vendor", [1, 3, 6, 1, 4, 1, 9]), ("second", [1, 3, 6, 1, 4, 1, 9, 2]),
      ("deep", [1, 3, 6, 1, 4, 1, 9, 1, 5])])
  oidString oid := dotted (oid.map UInt32.toNat)

theorem arcs_gapped : (preorder (buildTree gapped id id [octets "VENDOR-MIB"])).map (arcsOf ·.oid)
    = [[1, 3, 6, 1, 4, 1, 9], [1, 3, 6, 1, 4, 1, 9, 2], [1, 3, 6, 1, 4, 1, 9, 1, 5]] := by
  decide

/-- The tree holds the three, each in its place. -/
theorem tree_canonical_gapped : Canonical (buildTree gapped id id [octets "VENDOR-MIB"]) ∧
    (preorder (buildTree gapped id id [octets "VENDOR-MIB"])).length = 3 :=
  ⟨(@tree_canonical gapped (fun _ => rfl) [octets "VENDOR-MIB"] id id (fun l => .refl l)
    fun l => .refl l).1, by decide⟩

/-- **A whole tree need not be read in order.** -/
theorem gapped_not_in_order :
    ¬ ∀ (gosmi : Modules) (names : List Octets),
      (∀ oid, gosmi.oidString oid = dotted (oid.map UInt32.toNat)) →
      (preorder (buildTree gosmi id id names)).Pairwise Node.Precedes := by
  intro hall
  have hread : ((preorder (buildTree gapped id id [octets "VENDOR-MIB"])).map (arcsOf ·.oid)).Pairwise
      (· < ·) := List.pairwise_map.mpr (hall gapped [octets "VENDOR-MIB"] fun _ => rfl)
  rw [arcs_gapped] at hread
  exact absurd hread (by decide)

end SnmpLens.Mib
