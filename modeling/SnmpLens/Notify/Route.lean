import Mathlib.Data.List.DropRight
import SnmpLens.Lib.Glob
import SnmpLens.Lib.Netip
import SnmpLens.Notify.Sink
import SnmpLens.Router.Model

/-!
# Which destinations an event goes to

`pkg/notify/route.go` and `routedGroupsFor` of `internal/app/app.go`. A rule is a
fixed set of fields; the rules are walked in order of priority and id, and what
they select is filtered by the destinations on file and grouped by what each is
to be sent. `RoutingTime` turns an event's stamp into local wall-clock time, and
of that time only the minute of the day is looked at, so a rule is evaluated at a
minute here.

`unicode.ToLower`, the redaction and the renderer are what `Text` stands for:
nothing below depends on what they do.
-/

namespace SnmpLens.Notify

open Events Router

/-- `events.ParseSeverity`: the rung of the X.733 ladder a name stands for. -/
def parseSeverity (name : String) : Nat :=
  let name := (trimSpace name.toList).map toLower
  if name = "critical".toList then 5
  else if name = "major".toList then 4
  else if name = "minor".toList then 3
  else if name = "warning".toList then 2
  else 1

/-! ## Rules -/

/-- `notify.Window`: a wall-clock range that may wrap midnight. -/
structure Window where
  fromTime : String
  toTime : String
deriving DecidableEq, Repr

/-- `notify.RouteMatch`: what is empty matches everything. -/
structure RouteMatch where
  categories : List String := []
  kinds : List String := []
  minSeverity : String := ""
  sources : List String := []
  oidPrefix : String := ""
  sessionIDs : List String := []
  states : List String := []
  contains : String := ""
  quietHours : Option Window := none
deriving DecidableEq, Repr

/-- `notify.Route`. -/
structure Route where
  id : String
  enabled : Bool
  priority : Int
  criteria : RouteMatch
  sinkIDs : List String
  /-- Ends the evaluation where this rule matches. -/
  stop : Bool
deriving DecidableEq, Repr

/-- What routing takes from elsewhere: lower case, the redaction and the renderer. -/
structure Text where
  lower : Char → Char
  redactEvent : Event → Event
  renderForSink : Event → SinkConfig → String × String

def matchesAny (list : List String) (value : String) : Bool := list.isEmpty || list.contains value

/-- `sourceAddr`: an address, tolerating a port. -/
def sourceAddr (source : String) : Option Netip.Addr :=
  match Netip.parseAddr source.toList with
  | some addr => some addr.unmap
  | none => do
      let host ← Netip.splitHost source.toList
      let addr ← Netip.parseAddr host
      return addr.unmap

/-- `matchesSource`: an address range, or a glob, or the source itself. -/
def matchesSource (patterns : List String) (source : String) : Bool :=
  patterns.isEmpty || patterns.any fun p =>
    match Netip.parsePrefix p.toList with
    | some range =>
        match sourceAddr source with
        | none => false
        | some addr => range.bits == 0 || range.contains addr
    | none => Glob.pathMatch p source == some true || p == source

/-- `atoi`: digits only, on an `int` that wraps. -/
def atoi (s : List Char) : Option Nat :=
  if s.isEmpty then none
  else s.foldlM (fun n c => (Netip.digit c).map fun d => (n * 10 + d) % 2 ^ 64) 0

/-- `parseHHMM`, in minutes. -/
def parseHHMM (s : String) : Option Nat :=
  match (trimSpace s.toList).splitOn ':' with
  | [hours, minutes] => do
      let h ← atoi hours
      let m ← atoi minutes
      if 23 < h ∨ 59 < m then none else some (h * 60 + m)
  | _ => none

/-- `inWindow`, at a minute of the day. -/
def inWindow (w : Option Window) (minute : Nat) : Bool :=
  match w with
  | none => false
  | some w =>
      if w.fromTime == "" || w.toTime == "" then false
      else
        match parseHHMM w.fromTime, parseHHMM w.toTime with
        | some start, some stop =>
            if start ≤ stop then decide (start ≤ minute) && decide (minute < stop)
            else decide (start ≤ minute) || decide (minute < stop)
        | _, _ => false

/-- `oidHasPrefix`: by sub-identifiers, the leading dots apart. -/
def oidHasPrefix (oid root : String) : Bool :=
  let oid := oid.toList.dropWhile (· == '.')
  let root := root.toList.dropWhile (· == '.')
  if oid.isEmpty || root.isEmpty then root.isEmpty
  else oid == root || (root ++ ['.']).isPrefixOf oid

/-- `RouteMatch.Matches`, at a minute of the day. -/
def RouteMatch.matches (text : Text) (m : RouteMatch) (e : Event) (minute : Nat) : Bool :=
  matchesAny m.categories e.category
    && matchesAny m.kinds e.kind
    && matchesAny m.sessionIDs e.sessionID
    && matchesAny m.states e.state
    && (m.minSeverity == "" || parseSeverity m.minSeverity ≤ parseSeverity e.severity)
    && matchesSource m.sources e.source
    && (m.oidPrefix == "" || oidHasPrefix e.oid m.oidPrefix)
    && (m.contains == "" ||
      Notify.contains (m.contains.toList.map text.lower) (e.summary.toList.map text.lower))
    -- quiet hours suppress the delivery
    && !inWindow m.quietHours minute

/-! ## Selection -/

/-- The order of two rules that needs no exchange. -/
def Route.inOrder (a b : Route) : Bool :=
  a.priority < b.priority || (a.priority == b.priority && a.id ≤ b.id)

/-- One round of the insertion sort: `r` moves in front of the rules it is not behind. -/
def insertRoute (ordered : List Route) (r : Route) : List Route :=
  ordered.rdropWhile (fun a => !a.inOrder r) ++ r :: ordered.rtakeWhile (fun a => !a.inOrder r)

/-- The sinks of one rule that were not selected yet, behind those that were. -/
def addSinks (out sinkIDs : List String) : List String :=
  sinkIDs.foldl (fun out id => if out.contains id then out else out ++ [id]) out

/-- The walk over the ordered rules. -/
def selectLoop (hits : Route → Bool) : List String → List Route → List String
  | out, [] => out
  | out, r :: rest =>
      if !r.enabled || !hits r then selectLoop hits out rest
      else if r.stop then addSinks out r.sinkIDs
      else selectLoop hits (addSinks out r.sinkIDs) rest

def select (text : Text) (routes : List Route) (e : Event) (minute : Nat) : List String :=
  selectLoop (fun r => r.criteria.matches text e minute) [] (routes.foldl insertRoute [])

/-- `deadLetterSink`: the sink a dead-letter event is about, or `""`. -/
def deadLetterSink (e : Event) : String :=
  if e.kind != kindSystemSinkDeadLetter then ""
  else
    match e.paramString "sinkId" with
    | some id => if id != "" then id else (e.paramString "sink").getD ""
    | none => (e.paramString "sink").getD ""

/-- The configuration on file under an id: the last one `ListSinks` returns. -/
def sinkOf (sinks : List SinkConfig) (id : String) : Option SinkConfig :=
  sinks.reverse.find? fun cfg => cfg.id == id

/-- The selected sinks that get a row: on file, enabled, and not the one the event is about. -/
def destinations (text : Text) (routes : List Route) (sinks : List SinkConfig) (e : Event)
    (minute : Nat) : List String :=
  let failing := deadLetterSink e
  let sinkIDs := select text routes e minute
  let sinkIDs := if failing != "" then sinkIDs.filter (· != failing) else sinkIDs
  sinkIDs.filter fun id => (sinkOf sinks id).any SinkConfig.enabled

/-- One destination joins the group that is sent what it is sent, or opens one. -/
def addToGroup (groups : List (Bool × RoutedGroup)) (redact : Bool) (g : RoutedGroup)
    (id : String) : List (Bool × RoutedGroup) :=
  let same (k : Bool × RoutedGroup) : Bool :=
    k.1 == redact && k.2.subject == g.subject && k.2.body == g.body
  if groups.any same then
    groups.map fun k => if same k then (k.1, { k.2 with sinkIDs := k.2.sinkIDs ++ [id] }) else k
  else groups ++ [(redact, { g with sinkIDs := [id] })]

/-- One destination's rendering, masked first where it is to be. -/
def renderOne (text : Text) (e : Event) (cfg : SinkConfig) : RoutedGroup :=
  let ev := if cfg.redact then text.redactEvent e else e
  let (subject, body) := text.renderForSink ev cfg
  { event := ev, sinkIDs := [], subject, body }

/-- `routedGroupsFor`, the reads having succeeded. The groups come in the order of a Go map. -/
def routedGroupsFor (text : Text) (routes : List Route) (sinks : List SinkConfig) (e : Event)
    (minute : Nat) : List RoutedGroup :=
  let groups := (destinations text routes sinks e minute).foldl (fun groups id =>
    match sinkOf sinks id with
    | none => groups
    | some cfg => addToGroup groups cfg.redact (renderOne text e cfg) id) []
  groups.map Prod.snd

/-! ## What is selected -/

theorem sinkOf_of_mem_destinations {text : Text} {routes : List Route} {sinks : List SinkConfig}
    {e : Event} {minute : Nat} {id : String} (h : id ∈ destinations text routes sinks e minute) :
    ∃ cfg, sinkOf sinks id = some cfg ∧ cfg.enabled = true := by
  have hany := (List.mem_filter.mp h).2
  cases hcfg : sinkOf sinks id with
  | none => exact absurd hany (by simp [hcfg])
  | some cfg => exact ⟨cfg, rfl, by simpa [hcfg] using hany⟩

theorem mem_addToGroup {groups : List (Bool × RoutedGroup)} {redact : Bool} {g : RoutedGroup}
    {id s : String} :
    (∃ k ∈ addToGroup groups redact g id, s ∈ k.2.sinkIDs)
      ↔ (∃ k ∈ groups, s ∈ k.2.sinkIDs) ∨ s = id := by
  unfold addToGroup
  dsimp only
  split
  · rename_i hany
    obtain ⟨found, hfound, hsame⟩ := List.any_eq_true.mp hany
    constructor
    · intro h
      obtain ⟨k, hk, hs⟩ := h
      obtain ⟨k', hk', rfl⟩ := List.mem_map.mp hk
      split at hs
      · rcases List.mem_append.mp hs with hs | hs
        · exact .inl ⟨k', hk', hs⟩
        · exact .inr (List.mem_singleton.mp hs)
      · exact .inl ⟨k', hk', hs⟩
    · intro h
      rcases h with ⟨k, hk, hs⟩ | rfl
      · refine ⟨_, List.mem_map_of_mem hk, ?_⟩
        split
        · exact List.mem_append_left _ hs
        · exact hs
      · refine ⟨_, List.mem_map_of_mem hfound, ?_⟩
        rw [if_pos hsame]
        simp
  · simp [or_and_right, exists_or]

/-- **The groups hold exactly the destinations.** -/
theorem mem_routedGroupsFor {text : Text} {routes : List Route} {sinks : List SinkConfig}
    {e : Event} {minute : Nat} {s : String} :
    (∃ g ∈ routedGroupsFor text routes sinks e minute, s ∈ g.sinkIDs)
      ↔ s ∈ destinations text routes sinks e minute := by
  have hfold : ∀ (ids : List String) (groups : List (Bool × RoutedGroup)),
      (∀ id ∈ ids, ∃ cfg, sinkOf sinks id = some cfg) →
      ((∃ k ∈ ids.foldl (fun groups id =>
          match sinkOf sinks id with
          | none => groups
          | some cfg => addToGroup groups cfg.redact (renderOne text e cfg) id) groups,
            s ∈ k.2.sinkIDs) ↔ (∃ k ∈ groups, s ∈ k.2.sinkIDs) ∨ s ∈ ids) := by
    intro ids
    induction ids with
    | nil => simp
    | cons id rest ih =>
        intro groups hknown
        obtain ⟨cfg, hcfg⟩ := hknown id List.mem_cons_self
        rw [List.foldl_cons, ih _ fun x hx => hknown x (List.mem_cons_of_mem _ hx), hcfg]
        rw [mem_addToGroup, List.mem_cons, or_assoc]
  have hall := hfold (destinations text routes sinks e minute) [] fun id hid =>
    (sinkOf_of_mem_destinations hid).imp fun _ h => h.1
  unfold routedGroupsFor
  simp only [List.mem_map, exists_exists_and_eq_and]
  rw [hall]
  simp

end SnmpLens.Notify
