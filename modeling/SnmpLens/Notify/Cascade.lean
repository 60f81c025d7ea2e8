import SnmpLens.Lib.Branching
import SnmpLens.Notify.Dispatcher
import SnmpLens.Notify.Route

/-!
# Dead letters about dead letters

A delivery that is given up becomes an event of its own (`OnDead`, the wiring of
`initDispatcher`), which is journalled and routed like any other. A dead letter
never goes back to the sink it is about — and that is all the guard looks at, so
two sinks that fail can hand each other's notices back and forth.

The process is a pool of journalled events and pending rows, over a fixed
configuration and a fixed set of sinks that fail every time. Which failing sinks
hear of which is a graph (`Feeds`), and `cascade_ends_iff` says that the notices
of an event end exactly when none of its deliveries leads into a loop of it.

An event is known here by what routing reads of it: its id, its `seq` and its
stamp stay empty, and the minute its stamp is in the local zone stands beside it.
-/

namespace SnmpLens.Notify

open Events Router Branching Relation

/--
An installation whose configuration nobody changes.

`outcomes` is how an attempt at a failing sink may end: none for a sink that
works. A local zone shows every minute of the day again and again.
-/
structure Site where
  routes : List Route
  sinks : List SinkConfig
  minuteOf : Nat → Nat
  outcomes : String → Set Outcome
  recurs : ∀ t now, ∃ later, now ≤ later ∧ minuteOf later = minuteOf t
  fails : ∀ sinkID, Outcome.sent ∉ outcomes sinkID

/-- `sinkName`: what the operator called a destination. -/
def sinkName (sinks : List SinkConfig) (sinkID : String) : String :=
  match sinks.find? fun s => s.id == sinkID && !(trimSpace s.name.toList).isEmpty with
  | some s => s.name
  | none => sinkID

/-- `deadLetterEvent`: the event announcing that a delivery was given up on. -/
def deadLetterEvent (sinks : List SinkConfig) (sinkID : String) (attempts : Nat)
    (errText : String) : Event where
  category := categorySystem
  kind := kindSystemSinkDeadLetter
  severity := "major"
  titleKey := "events.kind." ++ kindSystemSinkDeadLetter
  params := [("sink", .str (sinkName sinks sinkID)), ("sinkId", .str sinkID),
    ("attempts", .int (attempts + 1)), ("error", .str errText)]
  summary := "Delivery to " ++ sinkName sinks sinkID ++ " given up: " ++ errText

/-- The dead letter of an attempt, as `recordEvent` journals it. -/
def Site.notice (site : Site) (sinkID : String) (attempts : Nat) (o : Outcome) : Event :=
  withDefaults "" "" 0 (deadLetterEvent site.sinks sinkID attempts (o.errMsg sinkID))

/-- What there is still to do: an event to route, or a row to deliver. -/
inductive Item where
  | event (e : Event) (minute : Nat)
  | row (sinkID : String) (event : Event) (attempts : Nat)

section

variable (text : Text) (site : Site)

/-- The rows `EnqueueRouted` writes for an event. -/
def Site.rowsOf (e : Event) (minute : Nat) : List Item :=
  (routedGroupsFor text site.routes site.sinks e minute).flatMap fun g =>
    g.sinkIDs.map fun sinkID => .row sinkID g.event 0

/-- What one step makes of an event or a row. -/
inductive Becomes : Nat → Item → Multiset Item → Prop
  | routed {now : Nat} (e : Event) (minute : Nat) :
      Becomes now (.event e minute) (site.rowsOf text e minute)
  | sent {now : Nat} {sinkID : String} (event : Event) (attempts : Nat) :
      site.outcomes sinkID = ∅ → Becomes now (.row sinkID event attempts) 0
  | failed {now : Nat} {sinkID : String} {attempts : Nat} {o : Outcome} (event : Event) :
      o ∈ site.outcomes sinkID → o.dead attempts = false →
      Becomes now (.row sinkID event attempts) {.row sinkID event (attempts + 1)}
  | dead {now : Nat} {sinkID : String} {attempts : Nat} {o : Outcome} (event : Event) :
      o ∈ site.outcomes sinkID → o.dead attempts = true →
      Becomes now (.row sinkID event attempts)
        {.event (site.notice sinkID attempts o) (site.minuteOf now)}

/-- The failing sink `s` makes a dead letter that the rules send to `t`. -/
def Feeds (s t : String) : Prop :=
  ∃ o ∈ site.outcomes s, ∃ now,
    t ∈ destinations text site.routes site.sinks (site.notice s 0 o) (site.minuteOf now)

/-- One of the destinations of an event leads into a loop of failing sinks. -/
def LeadsToLoop (e : Event) (minute : Nat) : Prop :=
  ∃ r ∈ destinations text site.routes site.sinks e minute,
    ∃ s, ReflTransGen (Feeds text site) r s ∧ TransGen (Feeds text site) s s

/-- No run goes on forever, and where one cannot go on nothing is pending. -/
structure CascadeEnds (e : Event) (minute now : Nat) : Prop where
  finite : Ends (Becomes text site) ⟨now, {.event e minute}⟩
  drained : ∀ p, ReflTransGen (Step (Becomes text site)) ⟨now, {.event e minute}⟩ p →
    (∀ q, ¬ Step (Becomes text site) p q) → p.items = 0

end

variable {text : Text} {site : Site}

/-! ## Steps -/

theorem recurrent_becomes : Recurrent (Becomes text site) := by
  intro t a s h now
  cases h with
  | routed e minute => exact ⟨now, Nat.le_refl _, .routed e minute⟩
  | sent event attempts hnone => exact ⟨now, Nat.le_refl _, .sent event attempts hnone⟩
  | failed event ho hdead => exact ⟨now, Nat.le_refl _, .failed event ho hdead⟩
  | dead event ho hdead =>
      obtain ⟨later, hle, hminute⟩ := site.recurs t now
      exact ⟨later, hle, hminute ▸ .dead event ho hdead⟩

theorem exists_becomes (now : Nat) (a : Item) : ∃ s, Becomes text site now a s := by
  cases a with
  | event e minute => exact ⟨_, .routed e minute⟩
  | row sinkID event attempts =>
      rcases Set.eq_empty_or_nonempty (site.outcomes sinkID) with hnone | ⟨o, ho⟩
      · exact ⟨_, .sent event attempts hnone⟩
      · cases hdead : o.dead attempts with
        | false => exact ⟨_, .failed event ho hdead⟩
        | true => exact ⟨_, .dead event ho hdead⟩

theorem mem_rowsOf {e : Event} {minute : Nat} {a : Item} :
    a ∈ site.rowsOf text e minute ↔
      ∃ g ∈ routedGroupsFor text site.routes site.sinks e minute, ∃ s ∈ g.sinkIDs,
        a = .row s g.event 0 := by
  simp only [Site.rowsOf, List.mem_flatMap, List.mem_map, eq_comm]

/-- Where a notice goes does not depend on how many attempts there were. -/
theorem destinations_notice (s : String) (n : Nat) (o : Outcome) (minute : Nat) :
    destinations text site.routes site.sinks (site.notice s n o) minute
      = destinations text site.routes site.sinks (site.notice s 0 o) minute := rfl

/-- An attempt at a failing sink that is not the last one has another after it. -/
theorem attempts_lt {s : String} {o : Outcome} {n : Nat} (ho : o ∈ site.outcomes s)
    (hdead : o.dead n = false) : n + 1 < maxAttempts := by
  cases o with
  | sent => exact absurd ho (site.fails s)
  | unresolved => exact absurd hdead (by simp [Outcome.dead])
  | failed err =>
      simp only [Outcome.dead, Bool.or_eq_false_iff, decide_eq_false_iff_not] at hdead
      omega

/-! ## Lines of descent -/

/-- The items a row can become, in any number of steps. -/
abbrev Descends (text : Text) (site : Site) : Item → Item → Prop :=
  TransGen (Child (Becomes text site))

theorem descends_notice {s : String} {o : Outcome} (ho : o ∈ site.outcomes s) (event : Event)
    (now n : Nat) :
    ∃ k, Descends text site (.event (site.notice s k o) (site.minuteOf now)) (.row s event n) := by
  by_cases hdead : o.dead n = true
  · exact ⟨n, .single ⟨now, _, .dead event ho hdead, Multiset.mem_singleton_self _⟩⟩
  · have hdead : o.dead n = false := Bool.eq_false_iff.mpr hdead
    have hlt := attempts_lt ho hdead
    obtain ⟨k, hk⟩ := descends_notice ho event now (n + 1)
    exact ⟨k, hk.tail ⟨now, _, .failed event ho hdead, Multiset.mem_singleton_self _⟩⟩
termination_by maxAttempts - n

theorem child_row {e : Event} {minute : Nat} {t : String}
    (h : t ∈ destinations text site.routes site.sinks e minute) :
    ∃ event, Child (Becomes text site) (.row t event 0) (.event e minute) := by
  obtain ⟨g, hg, ht⟩ := mem_routedGroupsFor.mpr h
  refine ⟨g.event, 0, _, .routed e minute, ?_⟩
  exact Multiset.mem_coe.mpr (mem_rowsOf.mpr ⟨g, hg, t, ht, rfl⟩)

/-- A row whose line of descent ends is of a sink from which the notices end. -/
theorem acc_feeds_of_acc_row {a : Item} (h : Acc (Descends text site) a) :
    ∀ s event n, a = .row s event n → Acc (fun t s => Feeds text site s t) s := by
  induction h with
  | intro a _ ih =>
      rintro s event n rfl
      refine Acc.intro s ?_
      intro t hfeeds
      obtain ⟨o, ho, now, ht⟩ := hfeeds
      obtain ⟨k, hk⟩ := @descends_notice text _ _ _ ho event now n
      rw [← destinations_notice s k o] at ht
      obtain ⟨event', hchild⟩ := child_row ht
      exact ih _ (.head hchild hk) t event' 0 rfl

theorem acc_event {e : Event} {minute : Nat}
    (h : ∀ t ∈ destinations text site.routes site.sinks e minute, ∀ event,
      Acc (Child (Becomes text site)) (.row t event 0)) :
    Acc (Child (Becomes text site)) (.event e minute) := by
  refine Acc.intro _ ?_
  intro b hb
  obtain ⟨now, items, hbec, hmem⟩ := hb
  cases hbec with
  | routed =>
      obtain ⟨g, hg, t, ht, rfl⟩ := mem_rowsOf.mp (Multiset.mem_coe.mp hmem)
      exact h t (mem_routedGroupsFor.mp ⟨g, hg, ht⟩) g.event

/-- The attempts at a row run out; what is left then is what its notice becomes. -/
theorem acc_row {s : String}
    (h : ∀ t, Feeds text site s t → ∀ event, Acc (Child (Becomes text site)) (.row t event 0))
    (event : Event) (n : Nat) : Acc (Child (Becomes text site)) (.row s event n) := by
  refine Acc.intro _ ?_
  intro b hb
  obtain ⟨now, items, hbec, hmem⟩ := hb
  cases hbec with
  | sent => exact absurd hmem (Multiset.notMem_zero b)
  | failed _ ho hdead =>
      have hlt := attempts_lt ho hdead
      rw [Multiset.mem_singleton.mp hmem]
      exact acc_row h event (n + 1)
  | dead _ ho _ =>
      rw [Multiset.mem_singleton.mp hmem]
      refine acc_event ?_
      intro t ht
      rw [destinations_notice] at ht
      exact h t ⟨_, ho, now, ht⟩
termination_by maxAttempts - n

/-- A row of a sink from which the notices end has a line of descent that ends. -/
theorem acc_row_of_acc_feeds {s : String} (h : Acc (fun t s => Feeds text site s t) s) :
    ∀ event n, Acc (Child (Becomes text site)) (.row s event n) := by
  induction h with
  | intro s _ ih => exact acc_row fun t hfeeds event => ih t hfeeds event 0

/-- **An event's line of descent ends exactly when its destinations' notices do.** -/
theorem acc_event_iff {e : Event} {minute : Nat} :
    Acc (Child (Becomes text site)) (.event e minute) ↔
      ∀ t ∈ destinations text site.routes site.sinks e minute,
        Acc (fun t s => Feeds text site s t) t := by
  constructor
  · intro h t ht
    obtain ⟨event, hchild⟩ := child_row ht
    exact acc_feeds_of_acc_row (h.inv hchild).transGen t event 0 rfl
  · exact fun h => acc_event fun t ht event => acc_row_of_acc_feeds (h t ht) event 0

theorem feeds_known {s t : String} (h : Feeds text site s t) :
    t ∈ {id | id ∈ site.sinks.map SinkConfig.id} := by
  obtain ⟨o, _, now, ht⟩ := h
  obtain ⟨cfg, hcfg, _⟩ := sinkOf_of_mem_destinations ht
  have hfound := List.find?_some hcfg
  have hmem := List.mem_reverse.mp (List.mem_of_find?_eq_some hcfg)
  exact beq_iff_eq.mp hfound ▸ List.mem_map_of_mem hmem

/-! ## The law -/

/-- Whatever is pending can be worked on, so a run that stops has nothing pending. -/
theorem nothing_pending {p : Pool Item} (h : ∀ q, ¬ Step (Becomes text site) p q) :
    p.items = 0 := by
  by_contra hne
  obtain ⟨a, ha⟩ := Multiset.exists_mem_of_ne_zero hne
  obtain ⟨s, hs⟩ := @exists_becomes text site p.now a
  obtain ⟨rest, hrest⟩ := Multiset.exists_cons_of_mem ha
  have hp : p = ⟨p.now, a ::ₘ rest⟩ := by rw [← hrest]
  exact h ⟨p.now, rest + s⟩ (hp ▸ .mk (Nat.le_refl _) hs)

/-- The notices of an event go on exactly when one of its destinations leads into a loop. -/
theorem ends_iff_no_loop (e : Event) (minute now : Nat) :
    Ends (Becomes text site) ⟨now, {.event e minute}⟩ ↔ ¬ LeadsToLoop text site e minute := by
  have hfin : {id | id ∈ site.sinks.map SinkConfig.id}.Finite := List.finite_toSet _
  rw [ends_iff recurrent_becomes]
  simp only [Multiset.mem_singleton, forall_eq]
  rw [acc_event_iff]
  simp only [acc_iff_no_loop hfin fun _ _ => feeds_known, LeadsToLoop, not_exists, not_and]

/--
**The dead letters of an event come to an end exactly when none of its destinations
leads into a loop of failing sinks that are sent each other's notices.**

For every configuration, every set of failing sinks and every way they fail.
-/
theorem cascade_ends_iff (text : Text) (site : Site) (e : Event) (minute now : Nat) :
    CascadeEnds text site e minute now ↔ ¬ LeadsToLoop text site e minute := by
  constructor
  · exact fun h => (ends_iff_no_loop e minute now).mp h.finite
  · intro h
    exact ⟨(ends_iff_no_loop e minute now).mpr h, fun p _ hstuck => nothing_pending hstuck⟩

/-! ### Two sinks that fail, under one rule for everything -/

def plainSink (id : String) : SinkConfig := { id, name := id, enabled := true, redact := false }

/-- The rule an operator writes first. -/
def catchAll : Route where
  id := "all"
  enabled := true
  priority := 0
  criteria := {}
  sinkIDs := ["mail", "noc"]
  stop := false

/-- One catch-all rule with both sinks, each timing out at every attempt. -/
def twoDown : Site where
  routes := [catchAll]
  sinks := [plainSink "mail", plainSink "noc"]
  minuteOf t := t / 60 % 1440
  outcomes _ := {.failed (.net "i/o timeout")}
  recurs t now := ⟨t + 86400 * now, by omega, by omega⟩
  fails _ := by simp

theorem twoDown_loop (text : Text) (e : Event) (minute : Nat)
    (h : "mail" ∈ destinations text twoDown.routes twoDown.sinks e minute) :
    LeadsToLoop text twoDown e minute := by
  have hthere : Feeds text twoDown "mail" "noc" :=
    ⟨.failed (.net "i/o timeout"), Set.mem_singleton _, 0, List.mem_singleton_self _⟩
  have hback : Feeds text twoDown "noc" "mail" :=
    ⟨.failed (.net "i/o timeout"), Set.mem_singleton _, 0, List.mem_singleton_self _⟩
  exact ⟨"mail", h, "mail", .refl, .tail (.single hthere) hback⟩

/-- The text functions, on a text in lower case that nobody asked to mask. -/
def plainText : Text where
  lower := Char.toLower
  redactEvent := id
  renderForSink e _ := (e.summary, e.summary)

/-- **One event of a threshold never comes to rest.** -/
theorem two_down_never_end :
    ¬ ∀ (text : Text) (site : Site) (e : Event) (minute now : Nat),
        CascadeEnds text site e minute now := by
  intro hall
  have hends := (hall plainText twoDown { kind := kindThresholdOpened } 0 0).finite
  refine (ends_iff_no_loop _ _ _).mp hends (twoDown_loop _ _ _ ?_)
  exact List.mem_cons_self

end SnmpLens.Notify
