import SnmpLens.Events.Event
import SnmpLens.Lib.Utf8

/-!
# The event as it is rendered

`events.Event` once more, by its octets: what masks, prints and sends an event cuts and
searches strings octet by octet, and an octet that is no part of a rune gets as far as
any other. A parameter is one of the values a program can put under a name; what is none
of the four scalars is rendered as nothing.
-/

namespace SnmpLens.Render

open Utf8 Events

/-- A value under `Event.Params`. -/
inductive Param where
  | str (s : Octets)
  | int (n : Int)
  | float (x : Float64)
  | bool (b : Bool)
  /-- `nil`, a map or a slice. -/
  | composite
deriving DecidableEq, Repr

/-- `events.Event`. -/
structure Event where
  seq : Int := 0
  id : Octets := []
  ts : Octets := []
  category : Octets := []
  kind : Octets := []
  severity : Octets := []
  state : Octets := []
  source : Octets := []
  oid : Octets := []
  sessionID : Octets := []
  sessionName : Octets := []
  dedupKey : Octets := []
  corrID : Octets := []
  titleKey : Octets := []
  params : List (Octets × Param) := []
  summary : Octets := []
  value : Option Float64 := none
  payloadSize : Int := 0
  acked : Bool := false
deriving DecidableEq, Repr

end SnmpLens.Render
