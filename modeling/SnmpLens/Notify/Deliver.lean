import SnmpLens.Notify.Dispatcher
import SnmpLens.Notify.Email
import SnmpLens.Notify.Webhook

/-!
# One attempt

`deliver` of `pkg/notify/dispatcher.go` and the `resolve` it is given by
`internal/app/app.go`. Every failure to find out what a destination is comes back
as "no such sink", and every failure to read its credential as no credential.
-/

namespace SnmpLens.Notify

/-- What the other side of an attempt does, whatever the destination turns out to be. -/
structure Wire where
  collector : Collector
  response : Response
  relay : Relay
  /-- What a panic inside `Send` says. -/
  panic : Option String

/-- `Sink.Send`. -/
def Sink.send (std : Stdlib) (q : Queued) (wire : Wire) : Sink → Except GoErr Unit
  | .syslog cfg => cfg.send std wire.collector
  | .webhook cfg => cfg.send std q.event q.subject q.body wire.response
  | .email cfg => cfg.send std wire.relay

/-- `deliver`, up to what is recorded. -/
def deliver (std : Stdlib) (q : Queued) (wire : Wire) : Option Sink → Outcome
  | none => .unresolved
  | some sink =>
      match wire.panic with
      | some text => .failed (.plain ("the destination panicked: " ++ text))
      | none =>
          match sink.send std q wire with
          | .ok _ => .sent
          | .error err => .failed err

/-- `sinkSecret`. The store answers if it is open and the read succeeds. -/
def sinkSecret (answers : Bool) (stored : String → Option String) (sinkID : String) : String :=
  if !answers || sinkID == "" then "" else (stored sinkID).getD ""

/-- `resolve`, `none` for `sinks` being a read that failed. -/
def resolve (sinks : Option (List SinkConfig)) (answers : Bool) (stored : String → Option String)
    (sinkID : String) : Option Sink := do
  let sinks ← sinks
  let cfg ← sinks.find? fun cfg => cfg.id == sinkID
  if !cfg.enabled then none else build cfg (sinkSecret answers stored cfg.id)

end SnmpLens.Notify
