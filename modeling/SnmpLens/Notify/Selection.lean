import SnmpLens.Lib.Cursor
import SnmpLens.Notify.Route

/-!
# What `Select` selects

The sinks of the rules an event meets, in order of priority and id, up to the first of
them that is marked `stop`. The sort is an insertion sort in place and the walk keeps what
it has seen; what they come to does not mention either: a list that is a permutation of the
rules and in strict order, of which there is one where no two rules have the same priority
and id.
-/

namespace SnmpLens.Notify

open Events Router

/-! ## What a rule asks -/

/-- The minute lies in the window, which may go past midnight. -/
def Window.Covers (w : Window) (minute : Nat) : Prop :=
  ∃ start stop, parseHHMM w.fromTime = some start ∧ parseHHMM w.toTime = some stop ∧
    if start ≤ stop then start ≤ minute ∧ minute < stop else start ≤ minute ∨ minute < stop

/-- An event meets a rule's criteria; what is empty asks nothing. -/
structure Meets (text : Text) (m : RouteMatch) (e : Event) (minute : Nat) : Prop where
  category : m.categories = [] ∨ e.category ∈ m.categories
  kind : m.kinds = [] ∨ e.kind ∈ m.kinds
  session : m.sessionIDs = [] ∨ e.sessionID ∈ m.sessionIDs
  state : m.states = [] ∨ e.state ∈ m.states
  severity : m.minSeverity = "" ∨ parseSeverity m.minSeverity ≤ parseSeverity e.severity
  source : matchesSource m.sources e.source = true
  oid : m.oidPrefix = "" ∨ oidHasPrefix e.oid m.oidPrefix = true
  contains : m.contains = "" ∨
    m.contains.toList.map text.lower <:+: e.summary.toList.map text.lower
  /-- Outside the quiet hours. -/
  loud : ∀ w ∈ m.quietHours, ¬ w.Covers minute

theorem matchesAny_iff {list : List String} {value : String} :
    matchesAny list value = true ↔ list = [] ∨ value ∈ list := by
  simp [matchesAny]

theorem parseHHMM_empty : parseHHMM "" = none := by decide

theorem inWindow_iff {w : Option Window} {minute : Nat} :
    inWindow w minute = true ↔ ∃ v ∈ w, v.Covers minute := by
  cases w with
  | none => simp [inWindow]
  | some w =>
      simp only [inWindow, Option.mem_some_iff, exists_eq_left']
      by_cases hempty : w.fromTime = "" ∨ w.toTime = ""
      · -- an empty time is none that parses
        rw [if_pos (by simpa using hempty)]
        refine iff_of_false Bool.false_ne_true ?_
        rintro ⟨start, stop, hstart, hstop, -⟩
        rcases hempty with h | h
        · rw [h, parseHHMM_empty] at hstart
          cases hstart
        · rw [h, parseHHMM_empty] at hstop
          cases hstop
      · rw [if_neg (by simpa using hempty)]
        unfold Window.Covers
        cases hstart : parseHHMM w.fromTime with
        | none => simp
        | some start =>
            cases hstop : parseHHMM w.toTime with
            | none => simp
            | some stop =>
                simp only [Option.some.injEq, exists_and_left, exists_eq_left']
                split <;> simp

/-- **`Matches` is what the rule asks.** -/
theorem matches_iff {text : Text} {m : RouteMatch} {e : Event} {minute : Nat} :
    m.matches text e minute = true ↔ Meets text m e minute := by
  unfold RouteMatch.matches
  simp only [Bool.and_eq_true, Bool.or_eq_true, matchesAny_iff, beq_iff_eq, decide_eq_true_eq,
    Bool.not_eq_true', contains_iff]
  have hloud : inWindow m.quietHours minute = false ↔ ∀ w ∈ m.quietHours, ¬ w.Covers minute := by
    rw [← Bool.not_eq_true, inWindow_iff]
    push Not
    exact Iff.rfl
  rw [hloud]
  constructor
  · rintro ⟨⟨⟨⟨⟨⟨⟨⟨hcat, hkind⟩, hsession⟩, hstate⟩, hsev⟩, hsource⟩, hoid⟩, hcontains⟩, hquiet⟩
    exact ⟨hcat, hkind, hsession, hstate, hsev, hsource, hoid, hcontains, hquiet⟩
  · rintro ⟨hcat, hkind, hsession, hstate, hsev, hsource, hoid, hcontains, hquiet⟩
    exact ⟨⟨⟨⟨⟨⟨⟨⟨hcat, hkind⟩, hsession⟩, hstate⟩, hsev⟩, hsource⟩, hoid⟩, hcontains⟩, hquiet⟩

instance (text : Text) (m : RouteMatch) (e : Event) (minute : Nat) :
    Decidable (Meets text m e minute) := decidable_of_iff _ matches_iff

/-! ## The specification -/

/-- A rule comes before another: by priority, then by id. -/
def Route.Before (a b : Route) : Prop :=
  a.priority < b.priority ∨ a.priority = b.priority ∧ a.id < b.id

/-- No two rules have the same priority and id. -/
def Distinct (routes : List Route) : Prop :=
  routes.Pairwise fun a b => ¬ (a.priority = b.priority ∧ a.id = b.id)

/-- The rules up to the first that ends the evaluation. -/
def throughStop : List Route → List Route
  | [] => []
  | r :: rest => if r.stop then [r] else r :: throughStop rest

/-- What the rules in their order select: the sinks of those that are enabled and met, up to
the first marked `stop`, each sink where it occurs first. -/
def selection (text : Text) (ordered : List Route) (e : Event) (minute : Nat) : List String :=
  ((throughStop (ordered.filter fun r =>
    r.enabled && decide (Meets text r.criteria e minute))).flatMap Route.sinkIDs).eraseDups

/-! ## The order -/

variable {a b : Route}

theorem inOrder_iff : a.inOrder b = true ↔
    a.priority < b.priority ∨ a.priority = b.priority ∧ a.id ≤ b.id := by
  simp [Route.inOrder]

theorem inOrder_trans {a b c : Route} (h : a.inOrder b = true) (h' : b.inOrder c = true) :
    a.inOrder c = true := by
  rw [inOrder_iff] at h h' ⊢
  rcases h with h | ⟨h, hid⟩
  · rcases h' with h' | ⟨h', -⟩ <;> exact .inl (by omega)
  · rcases h' with h' | ⟨h', hid'⟩
    · exact .inl (by omega)
    · exact .inr ⟨by omega, String.le_trans hid hid'⟩

theorem inOrder_of_not (h : ¬ a.inOrder b = true) : b.inOrder a = true := by
  rw [inOrder_iff] at h ⊢
  obtain ⟨hlt, hid⟩ := not_or.mp h
  have hle : b.priority ≤ a.priority := Int.not_lt.mp hlt
  rcases Int.lt_or_eq_of_le hle with hlt | heq
  · exact .inl hlt
  · rcases String.le_total a.id b.id with h' | h'
    · exact absurd ⟨heq.symm, h'⟩ hid
    · exact .inr ⟨heq, h'⟩

theorem inOrder_of_before (h : a.Before b) : a.inOrder b = true := by
  rw [inOrder_iff]
  rcases h with h | ⟨h, hid⟩
  · exact .inl h
  · exact .inr ⟨h, String.lt_asymm hid⟩

theorem eq_of_inOrder (h : a.inOrder b = true) (h' : b.inOrder a = true) :
    a.priority = b.priority ∧ a.id = b.id := by
  rw [inOrder_iff] at h h'
  rcases h with h | ⟨h, hid⟩
  · rcases h' with h' | ⟨h', -⟩ <;> omega
  · rcases h' with h' | ⟨-, hid'⟩
    · omega
    · exact ⟨h, String.le_antisymm hid hid'⟩

theorem before_of_inOrder (h : a.inOrder b = true) (hne : ¬ (a.priority = b.priority ∧ a.id = b.id))
    : a.Before b := by
  by_cases hback : b.inOrder a = true
  · exact absurd (eq_of_inOrder h hback) hne
  · rw [inOrder_iff] at h
    rcases h with h | ⟨h, hid⟩
    · exact .inl h
    · refine .inr ⟨h, ?_⟩
      by_contra hlt
      exact hback (inOrder_iff.mpr (.inr ⟨h.symm, hlt⟩))

/-! ## The sort -/

/-- The rules are in the order that needs no exchange. -/
def Ordered (routes : List Route) : Prop := routes.Pairwise fun a b => a.inOrder b = true

theorem insertRoute_perm (ordered : List Route) (r : Route) :
    (insertRoute ordered r).Perm (r :: ordered) := by
  unfold insertRoute
  refine List.perm_middle.trans (List.Perm.cons r ?_)
  rw [List.rdropWhile_append_rtakeWhile]

/-- What `r` does not move in front of is in order with it: the last of them is, and the others
are in order with that one. -/
theorem inOrder_of_mem_rdropWhile {ordered : List Route} (h : Ordered ordered) {r a : Route}
    (ha : a ∈ ordered.rdropWhile fun a => !a.inOrder r) : a.inOrder r = true := by
  have hne : ordered.rdropWhile (fun a => !a.inOrder r) ≠ [] := List.ne_nil_of_mem ha
  have hlast := List.rdropWhile_last_not (fun a : Route => !a.inOrder r) ordered hne
  rw [Bool.not_eq_true', Bool.not_eq_false] at hlast
  have hkept : Ordered (ordered.rdropWhile fun a => !a.inOrder r) :=
    h.sublist (List.rdropWhile_prefix _ _).sublist
  rw [← List.dropLast_append_getLast hne] at ha hkept
  rcases List.mem_append.mp ha with ha | ha
  · have hin := (List.pairwise_append.mp hkept).2.2 a ha _ List.mem_cons_self
    exact inOrder_trans hin hlast
  · rw [List.mem_singleton.mp ha]
    exact hlast

theorem insertRoute_ordered {ordered : List Route} (h : Ordered ordered) (r : Route) :
    Ordered (insertRoute ordered r) := by
  have hback : ∀ b ∈ ordered.rtakeWhile (fun a => !a.inOrder r), r.inOrder b = true := by
    intro b hb
    have hno := List.mem_rtakeWhile_imp hb
    exact inOrder_of_not (by simpa using hno)
  have hsplit := h
  rw [← @List.rdropWhile_append_rtakeWhile _ (fun a : Route => !a.inOrder r) ordered] at hsplit
  obtain ⟨hfront, hrear, hcross⟩ := List.pairwise_append.mp hsplit
  refine List.pairwise_append.mpr ⟨hfront, List.pairwise_cons.mpr ⟨hback, hrear⟩, ?_⟩
  intro a ha b hb
  rcases List.mem_cons.mp hb with rfl | hb
  · exact inOrder_of_mem_rdropWhile h ha
  · exact hcross a ha b hb

/-- **The insertion sort sorts.** -/
theorem sorted_routes (routes : List Route) :
    (routes.foldl insertRoute []).Perm routes ∧ Ordered (routes.foldl insertRoute []) := by
  have hfold : ∀ (rest ordered : List Route), Ordered ordered →
      (rest.foldl insertRoute ordered).Perm (ordered ++ rest) ∧
        Ordered (rest.foldl insertRoute ordered) := by
    intro rest
    induction rest with
    | nil => exact fun ordered h => ⟨by simp, h⟩
    | cons r rest ih =>
        intro ordered h
        obtain ⟨hperm, hsorted⟩ := ih (insertRoute ordered r) (insertRoute_ordered h r)
        refine ⟨hperm.trans ?_, hsorted⟩
        exact ((insertRoute_perm ordered r).append_right rest).trans List.perm_middle.symm
  exact hfold routes [] .nil

theorem eq_of_ordered {routes xs ys : List Route} (hd : Distinct routes) (hx : xs.Perm routes)
    (hy : ys.Perm routes) (hox : Ordered xs) (hoy : Ordered ys) : xs = ys := by
  refine (hx.trans hy.symm).eq_of_pairwise ?_ hox hoy
  intro a b ha hb hab hba
  by_contra hne
  have hsame := eq_of_inOrder hab hba
  have hboth : routes.Pairwise fun a b =>
      ¬ (a.priority = b.priority ∧ a.id = b.id) ∧ ¬ (b.priority = a.priority ∧ b.id = a.id) :=
    hd.imp fun h => ⟨h, fun h' => h ⟨h'.1.symm, h'.2.symm⟩⟩
  rcases Cursor.rel_or_rel hboth (hx.subset ha) (hy.subset hb) hne with h | h
  · exact h.1 hsame
  · exact h.2 hsame

/-! ## The walk -/

/-- The sinks a rule adds are the new ones among its own. -/
theorem addSinks_eq (out sinkIDs : List String) :
    addSinks out sinkIDs = out ++ (sinkIDs.filter fun id => !out.contains id).eraseDups := by
  unfold addSinks
  induction sinkIDs generalizing out with
  | nil => simp
  | cons x rest ih =>
      rw [List.foldl_cons, ih, List.filter_cons]
      cases hx : out.contains x with
      | true => rw [if_pos rfl, Bool.not_true, if_neg Bool.false_ne_true]
      | false =>
        rw [if_neg Bool.false_ne_true, Bool.not_false, if_pos rfl, List.eraseDups_cons,
          List.append_assoc, List.singleton_append, List.filter_filter]
        congr 2
        refine congrArg List.eraseDups (List.filter_congr fun y _ => ?_)
        rw [List.contains_eq_any_beq, List.contains_eq_any_beq, List.any_append, List.any_cons,
          List.any_nil, Bool.or_false, Bool.not_or, Bool.and_comm]

/-- Adding the sinks of rules one after another is adding all of them. -/
theorem addSinks_append (out xs ys : List String) :
    addSinks (addSinks out xs) ys = addSinks out (xs ++ ys) := by
  unfold addSinks
  rw [List.foldl_append]

/-- **The walk**: it adds the sinks of the rules that hit, through the first that stops it. -/
theorem selectLoop_eq (hits : Route → Bool) (ordered : List Route) (out : List String) :
    selectLoop hits out ordered = addSinks out
      ((throughStop (ordered.filter fun r => r.enabled && hits r)).flatMap Route.sinkIDs) := by
  induction ordered generalizing out with
  | nil => rfl
  | cons r rest ih =>
      unfold selectLoop
      rw [List.filter_cons]
      by_cases hhit : (r.enabled && hits r) = true
      · have hno : (!r.enabled || !hits r) = false := by
          rw [← Bool.not_and, hhit, Bool.not_true]
        rw [hno, if_neg Bool.false_ne_true, if_pos hhit, throughStop]
        cases hstop : r.stop with
        | true =>
            rw [if_pos rfl, if_pos rfl, List.flatMap_cons, List.flatMap_nil, List.append_nil]
        | false =>
            rw [if_neg Bool.false_ne_true, if_neg Bool.false_ne_true, ih, List.flatMap_cons,
              addSinks_append]
      · have hyes : (!r.enabled || !hits r) = true := by
          rw [← Bool.not_and, (Bool.not_eq_true _).mp hhit, Bool.not_false]
        rw [hyes, if_pos rfl, if_neg hhit, ih]

theorem selectLoop_selection (text : Text) (ordered : List Route) (e : Event) (minute : Nat) :
    selectLoop (fun r => r.criteria.matches text e minute) [] ordered =
      selection text ordered e minute := by
  have hhits : (fun r : Route => r.enabled && r.criteria.matches text e minute) =
      fun r => r.enabled && decide (Meets text r.criteria e minute) := by
    funext r
    rw [Bool.eq_iff_iff, Bool.and_eq_true, Bool.and_eq_true, matches_iff, decide_eq_true_eq]
  rw [selectLoop_eq, hhits, addSinks_eq, List.nil_append]
  unfold selection
  congr 1
  exact List.filter_eq_self.mpr fun _ _ => rfl

/-! ## The result -/

/--
**Selection is its specification, in whatever order the rules are stored.**

Rules of distinct priority and id have one order, and `Select` returns what the specification
says of it; a permutation of the rules selects the same sinks in the same order.
-/
theorem select_eq_selection {routes : List Route} (hd : Distinct routes) (text : Text) (e : Event)
    (minute : Nat) :
    (∃ ordered : List Route, ordered.Perm routes ∧ ordered.Pairwise Route.Before) ∧
    (∀ ordered : List Route, ordered.Perm routes → ordered.Pairwise Route.Before →
      select text routes e minute = selection text ordered e minute) ∧
    ∀ routes' : List Route, routes'.Perm routes → select text routes' e minute = select text routes e minute := by
  obtain ⟨hperm, hordered⟩ := sorted_routes routes
  refine ⟨⟨routes.foldl insertRoute [], hperm, ?_⟩, ?_, ?_⟩
  · have hdistinct : Distinct (routes.foldl insertRoute []) :=
      hperm.symm.pairwise hd fun h h' => h ⟨h'.1.symm, h'.2.symm⟩
    exact (hordered.and hdistinct).imp fun h => before_of_inOrder h.1 h.2
  · intro ordered hsame hbefore
    have heq := eq_of_ordered hd hperm hsame hordered (hbefore.imp inOrder_of_before)
    unfold select
    rw [heq, selectLoop_selection]
  · intro routes' hsame
    obtain ⟨hperm', hordered'⟩ := sorted_routes routes'
    unfold select
    rw [eq_of_ordered hd (hperm'.trans hsame) hperm hordered' hordered]

/-! ### Three rules, the second of which ends the evaluation -/

/-- A rule that asks nothing. -/
def ruleOf (id : String) (priority : Int) (sinkIDs : List String) (stop : Bool) : Route where
  id := id
  enabled := true
  priority := priority
  criteria := {}
  sinkIDs := sinkIDs
  stop := stop

/-- Text that is passed on as it is. -/
def asIs : Text := ⟨id, id, fun _ _ => ("", "")⟩

def pagerRules : List Route :=
  [ruleOf "c" 3 ["archive"] false, ruleOf "b" 2 ["mail", "pager"] true,
    ruleOf "a" 1 ["mail"] false]

theorem select_eq_selection_pagerRules :
    select asIs pagerRules {} 0 = selection asIs pagerRules.reverse {} 0 ∧
      selection asIs pagerRules.reverse {} 0 = ["mail", "pager"] := by
  have hd : Distinct pagerRules := by
    unfold Distinct
    decide
  have hbefore : pagerRules.reverse.Pairwise Route.Before := by
    unfold Route.Before
    decide
  exact ⟨(select_eq_selection hd asIs {} 0).2.1 _ (List.reverse_perm _) hbefore,
    by decide⟩

end SnmpLens.Notify
