import SnmpLens.Lib.Forest

/-!
# The dependency graph, read as a tree

`frontend/src/utils/mibGraph.js`. A module is expanded where it is met first, and a later row of it
is a leaf. That loses nothing as long as the limit of the depth cuts off no module that is nearer to
the root than the limit is: what an expanded module imports is then expanded itself, or has a row at
the limit where no shorter way leads to it (`treeFrom_complete`).
-/

namespace SnmpLens.MibGraph

open Forest

/-- A row of the scan: a module, and what its file says. -/
structure Node where
  module : String
  file : String := ""
  present : Bool := true
  loaded : Bool := true
  imports : List String := []
  importedBy : List String := []
deriving DecidableEq, Repr

inductive Status where
  | missing
  | notLoaded
  | loaded
deriving DecidableEq, Repr

def statusOf (node : Node) : Status :=
  if !node.present then .missing else if node.loaded then .loaded else .notLoaded

def rootsOf (nodes : List Node) : List Node :=
  let roots := nodes.filter fun n => n.present && n.importedBy.isEmpty
  if roots ≠ [] then roots else nodes.filter Node.present

/-- `byModule.get`, for which the last row of a module counts. -/
def lookup (nodes : List Node) (module : String) : Node :=
  (nodes.reverse.find? fun n => n.module = module).getD { module, present := false }

/-- A row of the tree. -/
structure Item where
  module : String
  file : String
  status : Status
  depth : Nat
  cycle : Bool
  repeated : Bool
deriving DecidableEq, Repr

section

variable {σ α β : Type}

/-- A loop that hands a state on and collects what each round gives. -/
def collect (f : α → σ → β × σ) : List α → σ → List β × σ
  | [], s => ([], s)
  | a :: rest, s =>
      let (b, s) := f a s
      let (bs, s) := collect f rest s
      (b :: bs, s)

end

/-- `build`, with `left` more levels in front of the limit; `expanded` is handed on. -/
def build (nodes : List Node) : Nat → String → List String → Nat → List String →
    Rose Item × List String
  | left, module, path, depth, expanded =>
      let node := lookup nodes module
      let item : Item := {
        module, file := node.file, status := statusOf node, depth
        cycle := path.contains module
        repeated := !path.contains module && expanded.contains module }
      match left with
      | 0 => (.node item [], expanded)
      | left + 1 =>
          if item.cycle || item.repeated then (.node item [], expanded)
          else
            let (children, expanded) :=
              collect (fun dep expanded => build nodes left dep (module :: path) (depth + 1) expanded)
                node.imports (module :: expanded)
            (.node item children, expanded)

def treeFrom (nodes : List Node) (rootModule : String) (maxDepth : Nat) : Rose Item :=
  (build nodes maxDepth rootModule [] 0 []).1

def flattenTree (t : Rose Item) : List Item := t.preorder

/-! ## Ways through the imports -/

section

variable (nodes : List Node) (maxDepth : Nat) (root : String)

def importsOf (module : String) : List String := (lookup nodes module).imports

/-- A module that so many imports lead to. -/
inductive Reaches : Nat → String → Prop
  | here : Reaches 0 root
  | on {k : Nat} {m dep : String} : Reaches k m → dep ∈ importsOf nodes m → Reaches (k + 1) dep

/-- The modules of a way from the root, the last one first, none of them twice. -/
structure Way (way : List String) : Prop where
  start : way.getLast? = some root
  nodup : way.Nodup
  chain : way.IsChain fun dep m => dep ∈ importsOf nodes m

/-- A module at the limit of the depth. -/
def Cut (module : String) : Prop :=
  ∃ path, Way nodes root (module :: path) ∧ path.length = maxDepth

/-- No way as long as the limit leads to a module that imports something and is nearer to the root. -/
def Unobstructed : Prop :=
  ∀ m, Cut nodes maxDepth root m → importsOf nodes m = [] ∨
    ∀ k, k < maxDepth → ¬ Reaches nodes root k m

variable {nodes maxDepth root}

theorem mem_of_import {m dep : String} (h : dep ∈ importsOf nodes m) : m ∈ nodes.map Node.module := by
  unfold importsOf lookup at h
  cases hrow : nodes.reverse.find? fun n => n.module = m with
  | none =>
      rw [hrow] at h
      cases h
  | some n =>
      have hfound := List.find?_some hrow
      have hmodule : n.module = m := of_decide_eq_true hfound
      rw [← hmodule]
      exact List.mem_map_of_mem (List.mem_reverse.mp (List.mem_of_find?_eq_some hrow))

theorem reaches_of_chain {path : List String} {m : String} (hstart : (m :: path).getLast? = some root)
    (hchain : (m :: path).IsChain fun dep m => dep ∈ importsOf nodes m) :
    Reaches nodes root path.length m := by
  induction path generalizing m with
  | nil =>
      cases hstart
      exact .here
  | cons m' path ih =>
      rw [List.isChain_cons_cons] at hchain
      rw [List.getLast?_cons_cons] at hstart
      exact .on (ih hstart hchain.2) hchain.1

end

/-! ## What a tree shows -/

/-- Whether a row is expanded. -/
def Item.expanded (maxDepth : Nat) (i : Item) : Bool :=
  !i.cycle && !i.repeated && decide (i.depth < maxDepth)

/-- The modules that are expanded. -/
def expandedIn (maxDepth : Nat) (rows : List Item) : List String :=
  (rows.filter fun i => i.expanded maxDepth).map Item.module

/-- Below the modules of the path: a row is a cycle where its module is one of them, and its children
are its imports where it is expanded. -/
inductive Marked (nodes : List Node) (maxDepth : Nat) : List String → Rose Item → Prop
  | node {path : List String} {item : Item} {children : List (Rose Item)} :
      (item.cycle = true ↔ item.module ∈ path) →
      children.map (fun c => c.value.module) =
        (if item.expanded maxDepth then importsOf nodes item.module else []) →
      (∀ c ∈ children, Marked nodes maxDepth (item.module :: path) c) →
      Marked nodes maxDepth path (.node item children)

variable {nodes : List Node} {maxDepth : Nat} {root : String} {path e e' e'' : List String}
  {ts us : List (Rose Item)}

/-- What is built below a path: the trees, and what is expanded before and after. -/
structure Built (nodes : List Node) (maxDepth : Nat) (root : String) (path e e' : List String)
    (ts : List (Rose Item)) : Prop where
  marked : ∀ t ∈ ts, Marked nodes maxDepth path t
  fresh : (expandedIn maxDepth (preorder ts)).Nodup
  expanded : ∀ x, x ∈ e' ↔ x ∈ expandedIn maxDepth (preorder ts) ∨ x ∈ e
  disjoint : ∀ x ∈ expandedIn maxDepth (preorder ts), x ∉ e
  settled : ∀ t ∈ ts, t.value.module ∈ e' ∨ Cut nodes maxDepth root t.value.module
  closed : ∀ x ∈ expandedIn maxDepth (preorder ts), ∀ y ∈ importsOf nodes x,
    y ∈ (preorder ts).map Item.module ∧ (y ∈ e' ∨ Cut nodes maxDepth root y)
  reached : ∀ i ∈ preorder ts, ∃ k, Reaches nodes root k i.module

theorem preorder_single (item : Item) (children : List (Rose Item)) :
    preorder [Rose.node item children] = item :: preorder children := by
  rw [preorder_eq, List.flatMap_singleton, preorder_node]

theorem preorder_nil : preorder ([] : List (Rose Item)) = [] := by
  rw [preorder_eq]
  rfl

theorem preorder_append (ts us : List (Rose Item)) : preorder (ts ++ us) = preorder ts ++ preorder us := by
  rw [preorder_eq, preorder_eq, preorder_eq, List.flatMap_append]

theorem expandedIn_append (rows rows' : List Item) :
    expandedIn maxDepth (rows ++ rows') = expandedIn maxDepth rows ++ expandedIn maxDepth rows' := by
  unfold expandedIn
  rw [List.filter_append, List.map_append]

theorem Built.nil : Built nodes maxDepth root path e e [] where
  marked t ht := by cases ht
  fresh := List.nodup_nil
  expanded x := by
    constructor
    · exact .inr
    · intro h
      rcases h with h | h
      · cases h
      · exact h
  disjoint x hx := by cases hx
  settled t ht := by cases ht
  closed x hx := by cases hx
  reached i hi := by cases hi

/-- One tree after the other. -/
theorem Built.append (h : Built nodes maxDepth root path e e' ts)
    (h' : Built nodes maxDepth root path e' e'' us) :
    Built nodes maxDepth root path e e'' (ts ++ us) where
  marked t ht := by
    rcases List.mem_append.mp ht with ht | ht
    · exact h.marked t ht
    · exact h'.marked t ht
  fresh := by
    rw [preorder_append, expandedIn_append, List.nodup_append]
    refine ⟨h.fresh, h'.fresh, ?_⟩
    intro x hx y hy heq
    subst heq
    exact h'.disjoint x hy ((h.expanded x).mpr (.inl hx))
  expanded x := by
    rw [preorder_append, expandedIn_append, List.mem_append, h'.expanded, h.expanded, or_left_comm,
      or_assoc]
  disjoint x hx := by
    rw [preorder_append, expandedIn_append, List.mem_append] at hx
    rcases hx with hx | hx
    · exact h.disjoint x hx
    · exact fun he => h'.disjoint x hx ((h.expanded x).mpr (.inr he))
  settled t ht := by
    rcases List.mem_append.mp ht with ht | ht
    · rcases h.settled t ht with hin | hcut
      · exact .inl ((h'.expanded _).mpr (.inr hin))
      · exact .inr hcut
    · exact h'.settled t ht
  closed x hx y hy := by
    rw [preorder_append, expandedIn_append, List.mem_append] at hx
    rw [preorder_append, List.map_append, List.mem_append]
    rcases hx with hx | hx
    · obtain ⟨hshown, hin⟩ := h.closed x hx y hy
      refine ⟨.inl hshown, ?_⟩
      rcases hin with hin | hcut
      · exact .inl ((h'.expanded y).mpr (.inr hin))
      · exact .inr hcut
    · obtain ⟨hshown, hin⟩ := h'.closed x hx y hy
      exact ⟨.inr hshown, hin⟩
  reached i hi := by
    rw [preorder_append] at hi
    rcases List.mem_append.mp hi with hi | hi
    · exact h.reached i hi
    · exact h'.reached i hi

/-- A row that is not expanded. -/
theorem Built.leaf {item : Item} (hcycle : item.cycle = true ↔ item.module ∈ path)
    (hclosed : item.expanded maxDepth = false) (hin : item.module ∈ e ∨ Cut nodes maxDepth root item.module)
    (hreached : ∃ k, Reaches nodes root k item.module) :
    Built nodes maxDepth root path e e [.node item []] := by
  have hnone : expandedIn maxDepth (preorder [Rose.node item []]) = [] := by
    unfold expandedIn
    rw [preorder_single, preorder_nil, List.filter_cons_of_neg]
    · rfl
    · rw [hclosed]
      exact Bool.false_ne_true
  refine ⟨?_, ?_, ?_, ?_, ?_, ?_, ?_⟩
  · intro t ht
    rw [List.mem_singleton.mp ht]
    refine .node hcycle ?_ fun c hc => by cases hc
    rw [hclosed]
    rfl
  · rw [hnone]
    exact List.nodup_nil
  · intro x
    rw [hnone]
    exact (or_iff_right List.not_mem_nil).symm
  · rw [hnone]
    intro x hx
    cases hx
  · intro t ht
    rw [List.mem_singleton.mp ht]
    exact hin
  · rw [hnone]
    intro x hx
    cases hx
  · intro i hi
    rw [preorder_single, preorder_nil, List.mem_singleton] at hi
    rw [hi]
    exact hreached

/-- A row that is expanded, and its children below it. -/
theorem Built.expand {item : Item} {children : List (Rose Item)}
    (h : Built nodes maxDepth root (item.module :: path) (item.module :: e) e' children)
    (hcycle : item.cycle = true ↔ item.module ∈ path) (hopen : item.expanded maxDepth = true)
    (hnew : item.module ∉ e) (hreached : ∃ k, Reaches nodes root k item.module)
    (hchildren : children.map (fun c => c.value.module) = importsOf nodes item.module) :
    Built nodes maxDepth root path e e' [.node item children] := by
  have hrows := preorder_single item children
  have hexpanded : expandedIn maxDepth (item :: preorder children) =
      item.module :: expandedIn maxDepth (preorder children) := by
    unfold expandedIn
    rw [List.filter_cons_of_pos hopen, List.map_cons]
  have hin : item.module ∈ e' := (h.expanded _).mpr (.inr List.mem_cons_self)
  refine ⟨?_, ?_, ?_, ?_, ?_, ?_, ?_⟩
  · intro t ht
    rw [List.mem_singleton.mp ht]
    refine .node hcycle ?_ h.marked
    rw [hopen, hchildren]
    rfl
  · rw [hrows, hexpanded, List.nodup_cons]
    exact ⟨fun hmem => h.disjoint _ hmem List.mem_cons_self, h.fresh⟩
  · intro x
    rw [hrows, hexpanded, h.expanded, List.mem_cons, List.mem_cons, or_left_comm, or_assoc]
  · intro x hx
    rw [hrows, hexpanded, List.mem_cons] at hx
    rcases hx with rfl | hx
    · exact hnew
    · exact fun he => h.disjoint x hx (List.mem_cons_of_mem _ he)
  · intro t ht
    rw [List.mem_singleton.mp ht]
    exact .inl hin
  · intro x hx y hy
    rw [hrows, hexpanded, List.mem_cons] at hx
    rw [hrows, List.map_cons, List.mem_cons]
    rcases hx with rfl | hx
    · rw [← hchildren, List.mem_map] at hy
      obtain ⟨c, hc, rfl⟩ := hy
      refine ⟨.inr ?_, h.settled c hc⟩
      exact List.mem_map_of_mem (mem_preorder.mpr ⟨c, hc, c.value_mem_preorder⟩)
    · obtain ⟨hshown, hin'⟩ := h.closed x hx y hy
      exact ⟨.inr hshown, hin'⟩
  · intro i hi
    rw [hrows, List.mem_cons] at hi
    rcases hi with rfl | hi
    · exact hreached
    · exact h.reached i hi

theorem built_collect {f : String → List String → Rose Item × List String} (deps : List String)
    (hf : ∀ dep ∈ deps, ∀ e, (∀ x ∈ path, x ∈ e) →
      Built nodes maxDepth root path e (f dep e).2 [(f dep e).1] ∧ (f dep e).1.value.module = dep)
    (hpath : ∀ x ∈ path, x ∈ e) :
    Built nodes maxDepth root path e (collect f deps e).2 (collect f deps e).1 ∧
      (collect f deps e).1.map (fun c => c.value.module) = deps := by
  induction deps generalizing e with
  | nil => exact ⟨.nil, rfl⟩
  | cons dep deps ih =>
      rw [List.forall_mem_cons] at hf
      obtain ⟨hfirst, hmodule⟩ := hf.1 e hpath
      obtain ⟨hrest, hmodules⟩ := @ih (f dep e).2 hf.2
        fun x hx => (hfirst.expanded x).mpr (.inr (hpath x hx))
      unfold collect
      refine ⟨hfirst.append hrest, ?_⟩
      rw [List.map_cons, hmodule, hmodules]

/-- **What `build` gives, wherever a way from the root has led it.** -/
theorem built_build {left : Nat} {module : String} (hdepth : path.length + left = maxDepth)
    (hstart : (module :: path).getLast? = some root) (hnodup : path.Nodup)
    (hchain : (module :: path).IsChain fun dep m => dep ∈ importsOf nodes m)
    (hpath : ∀ x ∈ path, x ∈ e) :
    Built nodes maxDepth root path e (build nodes left module path path.length e).2
        [(build nodes left module path path.length e).1] ∧
      (build nodes left module path path.length e).1.value.module = module := by
  induction left generalizing module path e with
  | zero =>
      have hreached : ∃ k, Reaches nodes root k module := ⟨_, reaches_of_chain hstart hchain⟩
      refine ⟨Built.leaf ?_ ?_ ?_ hreached, rfl⟩
      · exact List.contains_iff_mem
      · unfold Item.expanded
        dsimp only
        rw [Nat.add_zero] at hdepth
        rw [hdepth, decide_eq_false (Nat.lt_irrefl maxDepth), Bool.and_false]
      · dsimp only
        by_cases hmem : module ∈ path
        · exact .inl (hpath module hmem)
        · exact .inr ⟨path, ⟨hstart, List.nodup_cons.mpr ⟨hmem, hnodup⟩, hchain⟩, hdepth⟩
  | succ left ih =>
      have hreached : ∃ k, Reaches nodes root k module := ⟨_, reaches_of_chain hstart hchain⟩
      unfold build
      dsimp only
      split
      · rename_i hclosed
        refine ⟨Built.leaf List.contains_iff_mem ?_ ?_ hreached, rfl⟩
        · unfold Item.expanded
          dsimp only
          rw [← Bool.not_or, hclosed]
          rfl
        · rw [Bool.or_eq_true, Bool.and_eq_true, List.contains_iff_mem, List.contains_iff_mem]
            at hclosed
          rcases hclosed with hcycle | hrepeated
          · exact .inl (hpath module hcycle)
          · exact .inl hrepeated.2
      · rename_i hopen
        rw [Bool.not_eq_true, Bool.or_eq_false_iff] at hopen
        have hmem : module ∉ path := by
          intro hmem
          rw [List.contains_iff_mem.mpr hmem] at hopen
          cases hopen.1
        have hnew : module ∉ e := by
          intro hin
          rw [hopen.1, List.contains_iff_mem.mpr hin] at hopen
          cases hopen.2
        have hlevel : (module :: path).length + left = maxDepth := by
          rw [List.length_cons]
          omega
        obtain ⟨hbelow, hmodules⟩ := @built_collect nodes maxDepth root (module :: path) (module :: e)
          (fun dep expanded => build nodes left dep (module :: path) (module :: path).length expanded)
          (importsOf nodes module)
          (fun dep hdep e he => ih hlevel
            (by rw [List.getLast?_cons_cons]; exact hstart)
            (List.nodup_cons.mpr ⟨hmem, hnodup⟩) (List.isChain_cons_cons.mpr ⟨hdep, hchain⟩) he)
          (List.forall_mem_cons.mpr ⟨List.mem_cons_self, fun _ hx =>
            List.mem_cons_of_mem _ (hpath _ hx)⟩)
        refine ⟨Built.expand hbelow List.contains_iff_mem ?_ hnew hreached hmodules, rfl⟩
        unfold Item.expanded
        dsimp only
        rw [hopen.2, hopen.1, decide_eq_true (by omega)]
        rfl

/-! ## What the forest shows -/

theorem built_treeFrom (nodes : List Node) (root : String) (maxDepth : Nat) :
    Built nodes maxDepth root [] [] (build nodes maxDepth root [] 0 []).2
        [treeFrom nodes root maxDepth] ∧ (treeFrom nodes root maxDepth).value.module = root :=
  built_build (Nat.zero_add maxDepth) rfl List.nodup_nil (.singleton root)
    fun _ hx => absurd hx List.not_mem_nil

/-- The modules of a tree. -/
def shownIn (t : Rose Item) : List String := (flattenTree t).map Item.module

theorem shownIn_eq (t : Rose Item) : shownIn t = (preorder [t]).map Item.module := by
  rw [preorder_eq, List.flatMap_singleton]
  rfl

theorem root_mem_shownIn (nodes : List Node) (root : String) (maxDepth : Nat) :
    root ∈ shownIn (treeFrom nodes root maxDepth) := by
  have hroot := (built_treeFrom nodes root maxDepth).2
  have hmem := List.mem_map_of_mem (f := Item.module)
    (treeFrom nodes root maxDepth).value_mem_preorder
  rwa [hroot] at hmem

/-- **Where nothing obstructs it a tree shows all that is within the limit.** -/
theorem treeFrom_complete (h : Unobstructed nodes maxDepth root) {k : Nat} {m : String}
    (hk : k ≤ maxDepth) (hm : Reaches nodes root k m) :
    m ∈ shownIn (treeFrom nodes root maxDepth) := by
  obtain ⟨hbuilt, hroot⟩ := built_treeFrom nodes root maxDepth
  -- a module that is nearer than the limit is expanded, or imports nothing
  have hopen : ∀ {k : Nat} {m : String}, Reaches nodes root k m → k < maxDepth →
      (m ∈ (build nodes maxDepth root [] 0 []).2 ∨ Cut nodes maxDepth root m) →
      m ∈ expandedIn maxDepth (preorder [treeFrom nodes root maxDepth]) ∨ importsOf nodes m = [] := by
    intro k m hm hk hin
    rcases hin with hin | hcut
    · rcases (hbuilt.expanded m).mp hin with hin | hin
      · exact .inl hin
      · cases hin
    · rcases h m hcut with hnone | hfar
      · exact .inr hnone
      · exact absurd hm (hfar k hk)
  have hall : m ∈ shownIn (treeFrom nodes root maxDepth) ∧
      (m ∈ (build nodes maxDepth root [] 0 []).2 ∨ Cut nodes maxDepth root m) := by
    induction hm with
    | here =>
        have hsettled := hbuilt.settled _ List.mem_cons_self
        rw [hroot] at hsettled
        exact ⟨root_mem_shownIn nodes root maxDepth, hsettled⟩
    | @on k m dep hm hdep ih =>
        rcases hopen hm hk (ih (Nat.le_of_lt hk)).2 with hin | hnone
        · rw [shownIn_eq]
          exact hbuilt.closed m hin dep hdep
        · rw [hnone] at hdep
          cases hdep
  exact hall.1

/-- The trees of the roots show every module that is present and within the limit of a root, or that
no root leads to. -/
def Shown (nodes : List Node) (maxDepth : Nat) : Prop :=
  ∀ n ∈ nodes, n.present = true →
    ((∃ r ∈ rootsOf nodes, ∃ k, k ≤ maxDepth ∧ Reaches nodes r.module k n.module) ∨
      (∀ r ∈ rootsOf nodes, ∀ k, ¬ Reaches nodes r.module k n.module)) →
    ∃ r ∈ rootsOf nodes, n.module ∈ shownIn (treeFrom nodes r.module maxDepth)

/-- Where a module is a root, one of them leads to each module. -/
def Rooted (nodes : List Node) : Prop :=
  (∃ n ∈ nodes, n.present = true ∧ n.importedBy = []) → ∀ n ∈ nodes, n.present = true →
    ∃ r ∈ nodes, r.present = true ∧ r.importedBy = [] ∧ ∃ k, Reaches nodes r.module k n.module

theorem mem_roots {n : Node} :
    n ∈ nodes.filter (fun n => n.present && n.importedBy.isEmpty) ↔
      n ∈ nodes ∧ n.present = true ∧ n.importedBy = [] := by
  rw [List.mem_filter, Bool.and_eq_true, List.isEmpty_iff]

theorem reaches_of_shown {m : String} (h : m ∈ shownIn (treeFrom nodes root maxDepth)) :
    ∃ k, Reaches nodes root k m := by
  rw [shownIn_eq] at h
  obtain ⟨i, hi, rfl⟩ := List.mem_map.mp h
  exact (built_treeFrom nodes root maxDepth).1.reached i hi

theorem rootsOf_of_root {n : Node} (hn : n ∈ nodes) (hpresent : n.present = true)
    (halone : n.importedBy = []) :
    rootsOf nodes = nodes.filter fun n => n.present && n.importedBy.isEmpty :=
  if_pos (List.ne_nil_of_mem (mem_roots.mpr ⟨hn, hpresent, halone⟩))

theorem shown_iff_rooted (h : ∀ r ∈ rootsOf nodes, Unobstructed nodes maxDepth r.module) :
    Shown nodes maxDepth ↔ Rooted nodes := by
  constructor
  · intro hshown hroot n hn hpresent
    obtain ⟨r, hr, hrpresent, halone⟩ := hroot
    have hroots := rootsOf_of_root hr hrpresent halone
    by_cases hreached : ∃ r ∈ rootsOf nodes, ∃ k, Reaches nodes r.module k n.module
    · obtain ⟨r, hr, hk⟩ := hreached
      rw [hroots] at hr
      obtain ⟨hmem, hrpresent, halone⟩ := mem_roots.mp hr
      exact ⟨r, hmem, hrpresent, halone, hk⟩
    · have hnone : ∀ r ∈ rootsOf nodes, ∀ k, ¬ Reaches nodes r.module k n.module :=
        fun r hr k hk => hreached ⟨r, hr, k, hk⟩
      obtain ⟨r, hr, hmem⟩ := hshown n hn hpresent (.inr hnone)
      obtain ⟨k, hk⟩ := reaches_of_shown hmem
      exact absurd hk (hnone r hr k)
  · intro hrooted n hn hpresent hwithin
    by_cases hroot : ∃ n ∈ nodes, n.present = true ∧ n.importedBy = []
    · rcases hwithin with ⟨r, hr, k, hk, hreaches⟩ | hnone
      · exact ⟨r, hr, treeFrom_complete (h r hr) hk hreaches⟩
      · obtain ⟨r, hr, hrpresent, halone, k, hk⟩ := hrooted hroot n hn hpresent
        refine absurd hk (hnone r ?_ k)
        rw [rootsOf_of_root hr hrpresent halone]
        exact mem_roots.mpr ⟨hr, hrpresent, halone⟩
    · -- there is no root, and every module that is present is shown by its own tree
      have hnil : ¬ (nodes.filter fun n => n.present && n.importedBy.isEmpty) ≠ [] := by
        intro hne
        obtain ⟨r, hr⟩ := List.exists_mem_of_ne_nil _ hne
        exact hroot ⟨r, mem_roots.mp hr⟩
      refine ⟨n, ?_, root_mem_shownIn nodes n.module maxDepth⟩
      unfold rootsOf
      rw [if_neg hnil]
      exact List.mem_filter.mpr ⟨hn, hpresent⟩

theorem unobstructed_of_few (h : nodes.length < maxDepth) : Unobstructed nodes maxDepth root := by
  intro m hcut
  obtain ⟨path, hway, hlen⟩ := hcut
  -- every module of the path imports something, so it has a row of its own
  have hrows : path ⊆ nodes.map Node.module := by
    have hchain := hway.chain
    clear hway hlen
    induction path generalizing m with
    | nil => exact List.nil_subset _
    | cons x path ih =>
        rw [List.isChain_cons_cons] at hchain
        exact List.cons_subset.mpr ⟨mem_of_import hchain.1, ih x hchain.2⟩
  have hle := (List.nodup_cons.mp hway.nodup).2.length_le_of_subset hrows
  rw [List.length_map] at hle
  omega

/-- A scan of two files and a module that is missing. -/
def threeModules : List Node :=
  [{ module := "A", imports := ["B", "C"] }, { module := "B", imports := ["C"], importedBy := ["A"] }]

/-- A module that is imported directly, and once more at the end of a long chain. -/
def longChain : List Node :=
  [{ module := "0", imports := ["1", "X"] }, { module := "1", imports := ["2"], importedBy := ["0"] },
    { module := "2", imports := ["3"], importedBy := ["1"] },
    { module := "3", imports := ["4"], importedBy := ["2"] },
    { module := "4", imports := ["5"], importedBy := ["3"] },
    { module := "5", imports := ["6"], importedBy := ["4"] },
    { module := "6", imports := ["7"], importedBy := ["5"] },
    { module := "7", imports := ["8"], importedBy := ["6"] },
    { module := "8", imports := ["9"], importedBy := ["7"] },
    { module := "9", imports := ["10"], importedBy := ["8"] },
    { module := "10", imports := ["X"], importedBy := ["9"] },
    { module := "X", imports := ["Y"], importedBy := ["0", "10"] },
    { module := "Y", imports := ["Z"], importedBy := ["X"] }, { module := "Z", importedBy := ["Y"] }]

/-- A module on its own, and two that import one another. -/
def loopBeside : List Node :=
  [{ module := "A" }, { module := "B", imports := ["C"], importedBy := ["C"] },
    { module := "C", imports := ["B"], importedBy := ["B"] }]

end SnmpLens.MibGraph
