import Mathlib.Algebra.Group.Int.Defs
import Mathlib.Algebra.Group.Nat.Defs

/-!
# The event journal's vocabulary

`events.Event` and the closed sets an event is checked against, from
`pkg/events`. An event's `Params` is a map from names to JSON values; the values
the program puts there are strings, integers, floats and booleans, so `Param`
has exactly those.

`Float64` is the IEEE 754 binary64 value by its bits. Only the comparison is
ever computed here, and on bits it is exact: a float is NaN, or its order is the
order of its sign-magnitude integer.
-/

namespace SnmpLens.Events

/-- A Go `float64`, by its bits. -/
structure Float64 where
  bits : BitVec 64
deriving DecidableEq, Repr

namespace Float64

/-- All exponent bits set and a fraction that is not zero. -/
def isNaN (x : Float64) : Bool := 0x7ff0000000000000 < x.bits.toNat % 2 ^ 63

/-- The sign-magnitude integer whose order is the order of the non-NaN values. -/
def key (x : Float64) : Int :=
  if x.bits.msb then -(x.bits.toNat % 2 ^ 63 : Nat) else (x.bits.toNat % 2 ^ 63 : Nat)

/-- Go's `<` on `float64`. -/
def lt (x y : Float64) : Bool := !x.isNaN && !y.isNaN && x.key < y.key

end Float64

/-- A value under `Event.Params`. -/
inductive Param where
  | str (s : String)
  | int (n : Int)
  | float (x : Float64)
  | bool (b : Bool)
deriving DecidableEq, Repr

/-- `events.Event`. -/
structure Event where
  /-- Monotonic; allocated by the insert, so 0 on an event not journalled yet. -/
  seq : Nat := 0
  id : String := ""
  /-- RFC 3339, UTC. -/
  ts : String := ""
  category : String := ""
  kind : String := ""
  severity : String := ""
  state : String := ""
  source : String := ""
  oid : String := ""
  sessionID : String := ""
  sessionName : String := ""
  dedupKey : String := ""
  /-- Ties a resolution to its opening. -/
  corrID : String := ""
  titleKey : String := ""
  params : List (String × Param) := []
  summary : String := ""
  value : Option Float64 := none
  payloadSize : Nat := 0
  acked : Bool := false
deriving DecidableEq, Repr

/-- `e.Params[key].(string)`: the string under `key`, if it is one. -/
def Event.paramString (e : Event) (key : String) : Option String :=
  match e.params.lookup key with
  | some (.str s) => some s
  | _ => none

/-! ## Categories, kinds and states -/

def categoryTrap := "trap"
def categoryThreshold := "threshold"
def categoryReachability := "reachability"
def categorySystem := "system"
def categoryOperation := "operation"

def kindThresholdOpened := "threshold.opened"
def kindThresholdResolved := "threshold.resolved"
def kindReachabilityDown := "reachability.down"
def kindReachabilityUp := "reachability.up"
def kindSystemSinkDeadLetter := "system.sink_dead_letter"

def stateOneshot := "oneshot"
def stateOpen := "open"
def stateResolved := "resolved"

/-- The closed set of categories. -/
def categories : List String :=
  [categoryTrap, categoryThreshold, categoryReachability, categorySystem, categoryOperation]

/-- The closed set of states. -/
def states : List String := [stateOneshot, stateOpen, stateResolved]

/-- What `Validate` objects to. -/
inductive Invalid where
  | unknownCategory (category : String)
  | kindRequired
  | titleKeyRequired (kind : String)
  | unknownState (state : String)
deriving DecidableEq, Repr

/-- `events.Validate`: guards the closed sets, not the free text. -/
def validate (e : Event) : Except Invalid Unit :=
  if !categories.contains e.category then .error (.unknownCategory e.category)
  else if e.kind == "" then .error .kindRequired
  else if e.titleKey == "" then .error (.titleKeyRequired e.kind)
  else if e.state != "" && !states.contains e.state then .error (.unknownState e.state)
  else .ok ()

end SnmpLens.Events
