import SnmpLens.Simulator.Faults
import SnmpLens.Simulator.Fit
import SnmpLens.Simulator.Peek
import SnmpLens.Traps.Users

/-!
# Answering SNMPv3

`answerV3` of `pkg/simulator/usm.go`, and `process` of `pkg/simulator/pdu.go`. A message is read
twice: once for what it says of itself, and once by gosnmp, for the user it names and at the level
it claims, which is where its digest is checked. Each check that fails counts, and most of them
are told of in a Report.

gosnmp is a parameter: how it opens a message and how it marshals one. Where it panics, `handle`
of `pkg/simulator/agent.go` counts a fault and answers nothing, and so does the model.
-/

namespace SnmpLens.Simulator

open Utf8
open SnmpLens.Traps (AuthProtocol PrivProtocol)

/-! ## Levels and PDUs -/

/-- `gosnmp.NoAuthNoPriv`. -/
def noAuthNoPriv : UInt8 := 0

/-- `gosnmp.AuthNoPriv`. -/
def authNoPriv : UInt8 := 1

/-- `gosnmp.AuthPriv`. -/
def authPriv : UInt8 := 3

/-- `gosnmp.Reportable`. -/
def reportable : UInt8 := 4

/-- `level`: the security level the message claims. -/
def V3Header.level (h : V3Header) : UInt8 := h.flags &&& authPriv

/-- Whether a level signs. -/
def authenticates (level : UInt8) : Bool := level &&& authNoPriv ≠ 0

/-- `gosnmp.GetRequest`. -/
def getRequest : UInt8 := 0xa0

/-- `gosnmp.GetNextRequest`. -/
def getNextRequest : UInt8 := 0xa1

/-- `gosnmp.GetResponse`. -/
def getResponse : UInt8 := 0xa2

/-- `gosnmp.SetRequest`. -/
def setRequest : UInt8 := 0xa3

/-- `gosnmp.Report`. -/
def reportPDU : UInt8 := 0xa8

/-- `timeWindow`, in seconds. -/
def timeWindow : Int := 150

/-! ## Users and packets -/

/-- `user`: one of the agent's, with its keys localised to the agent's engine. -/
structure V3User where
  name : Octets
  level : UInt8
  auth : AuthProtocol := .noAuth
  priv : PrivProtocol := .noPriv
  authKey : Octets := []
  privKey : Octets := []
  write : Bool := false
deriving DecidableEq

/-- `gosnmp.UsmSecurityParameters`. -/
structure UsmSecurityParameters where
  userName : Octets := []
  engineID : Octets := []
  boots : UInt32 := 0
  engineTime : UInt32 := 0
  auth : AuthProtocol := .noAuth
  priv : PrivProtocol := .noPriv
  secretKey : Octets := []
  privacyKey : Octets := []
  privacyParameters : Octets := []
deriving DecidableEq

/-- `params`: the protocols a level uses and none above, with their keys. -/
def V3User.params (u : V3User) (engineID : Octets) (level : UInt8) : UsmSecurityParameters where
  userName := u.name
  engineID
  auth := if authenticates level then u.auth else .noAuth
  secretKey := if authenticates level then u.authKey else []
  priv := if level = authPriv then u.priv else .noPriv
  privacyKey := if level = authPriv then u.privKey else []

/-- `gosnmp.SnmpPacket`, of SNMPv3 and the user-based security model. -/
structure V3Packet where
  msgFlags : UInt8
  securityParameters : UsmSecurityParameters
  msgID : UInt32
  msgMaxSize : UInt32
  contextEngineID : Octets := []
  contextName : Octets := []
  pduType : UInt8 := 0
  requestID : UInt32 := 0
  error : SNMPError := .noError
  errorIndex : Nat := 0
  vars : List Varbind := []
  nonRepeaters : UInt8 := 0
  maxRepetitions : UInt32 := 0
deriving DecidableEq

/-- A packet as its answer is fitted to it. -/
def V3Packet.request (req : V3Packet) : Request where
  pduType := req.pduType
  nonRepeaters := req.nonRepeaters
  vars := req.vars

/-- What becomes of octets that gosnmp is given. -/
inductive Decoded where
  | packet (req : V3Packet)
  | error
  | panic
deriving DecidableEq

/-- gosnmp, as far as an agent uses it. A decoder is made for one message, of a level and the
parameters of a user at it. -/
structure Gosnmp (ε : Type) where
  toBigInt : Value → Int
  unmarshalTrap : UInt8 → UsmSecurityParameters → Octets → Decoded
  snmpDecodePacket : UInt8 → UsmSecurityParameters → Octets → Decoded
  marshalMsg : V3Packet → Except ε Octets

/-! ## The agent -/

/-- `counters`, of those an SNMPv3 message counts in. -/
inductive Stat where
  | parseErrors
  | unknownSecurityModels
  | invalidMsgs
  | unknownEngineIDs
  | unknownUserNames
  | unsupportedSecLevels
  | wrongDigests
  | notInTimeWindows
  | decryptionErrors
  | unknownContexts
  | unknownPDUHandlers
  | faults
  | inGets
  | inGetNexts
  | inSets
  | inTotalReqVars
  | inTotalSetVars
  | badCommunityUses
  | outGetResponses
  | outNoSuchNames
deriving DecidableEq, Repr

/-- `clock`: what a value is read by. -/
structure AgentClock extends Clock where
  stats : Stat → UInt32

/-- `Agent`, as far as it answers SNMPv3. `authFailures` is how often `authFailed` was told. -/
structure V3Agent extends Agent AgentClock where
  engineID : Octets
  boots : UInt32
  maxSize : Int
  users : Octets → Option V3User
  stats : Stat → UInt32
  authFailures : Nat

/-- What an agent is given with a message: the clock, the faults in force when it answers, and
what it draws. -/
structure Moment where
  clock : Clock
  faults : Option Faults
  roll : Fin 100
  salt : Answer → Octets

def Faults.errs (f : Faults) (roll : Fin 100) : Bool :=
  f.error ≠ "" && (roll.val : Int) < f.errorPercent

/-- `injectedError`: the error that an agent's faults answer a request with instead. -/
def injectedError (fs : Option Faults) (roll : Fin 100) (ver : Version) (req : Request) :
    Option Answer :=
  match fs with
  | none => none
  | some f =>
      if !f.errs roll then none
      else if f.error = "tooBig" then some (tooBig ver req)
      else some { vars := req.vars, status := .genErr, index := errIndex 0 req.vars.length }

namespace V3Agent

/-- `Add`, of a counter. -/
def add (a : V3Agent) (s : Stat) (n : UInt32) : V3Agent :=
  { a with stats := fun s' => if s' = s then a.stats s + n else a.stats s' }

def authFailed (a : V3Agent) : V3Agent := { a with authFailures := a.authFailures + 1 }

/-- A message that is counted and not answered. -/
def silent (a : V3Agent) (s : Stat) : V3Agent × Option Octets := (a.add s 1, none)

/-- The clock of a moment, with the counters as they are. -/
def clockAt (a : V3Agent) (m : Moment) : AgentClock := { m.clock with stats := a.stats }

/-- `engineTime`: seconds since the agent started. -/
def engineTime (c : Clock) : UInt32 := UInt32.ofInt ((sinceOf c.now c.started).tdiv 1000000000)

/-- `v3Packet`: a message from this engine, signed and encrypted for `u` where the level asks. -/
def v3Packet (a : V3Agent) (u : Option V3User) (userName : Octets) (level : UInt8) (msgID : UInt32)
    (c : Clock) (salt : Octets) : V3Packet where
  msgFlags := level
  securityParameters :=
    { (u.map (·.params a.engineID level)).getD {} with
      userName
      engineID := a.engineID
      boots := a.boots
      engineTime := engineTime c
      privacyParameters := if level = authPriv then salt else [] }
  msgID
  msgMaxSize := UInt32.ofInt a.maxSize
  contextEngineID := a.engineID

/-- `inTimeWindow`. A difference that wraps is outside the window, and so is the one here. -/
def inTimeWindow (a : V3Agent) (h : V3Header) (c : Clock) : Bool :=
  if maxBoots ≤ a.boots.toNat then false
  else
    let d := h.time - (engineTime c).toNat
    h.boots == a.boots.toNat && -timeWindow ≤ d && d ≤ timeWindow

section

variable {ε : Type} (g : Gosnmp ε)

def report (a : V3Agent) (m : Moment) (h : V3Header) (u : Option V3User) (level : UInt8)
    (requestID : UInt32) (name : String) (counter : Stat) : V3Agent × Option Octets :=
  let a := a.add counter 1
  if h.flags &&& reportable = 0 then (a, none)
  else
    let vars : List Varbind :=
      [{ name := octets name, type := .counter32, value := .uint32 (a.stats counter).toNat }]
    let pkt := { a.v3Packet u h.user level h.msgID m.clock (m.salt { vars }) with
      pduType := reportPDU
      requestID
      vars }
    match g.marshalMsg pkt with
    | .ok out => (a, some out)
    | .error _ => a.silent .faults

/-- `refuse`: decoded again without the digest, a message says which of its passphrases is wrong. -/
def refuse (a : V3Agent) (m : Moment) (h : V3Header) (u : V3User) (level : UInt8) (msg : Octets) :
    V3Agent × Option Octets :=
  if level = noAuthNoPriv then a.silent .parseErrors
  else
    match g.snmpDecodePacket level (u.params a.engineID level) msg with
    | .panic => a.silent .faults
    | .packet _ =>
        a.authFailed.report g m h none noAuthNoPriv h.requestID ".1.3.6.1.6.3.15.1.1.5.0"
          .wrongDigests
    | .error =>
        if level = authPriv then
          a.report g m h none noAuthNoPriv h.requestID ".1.3.6.1.6.3.15.1.1.6.0" .decryptionErrors
        else a.silent .parseErrors

def dispatch (a : V3Agent) (m : Moment) (ver : Version) (req : V3Packet) (write : Bool) :
    V3Agent × Answer :=
  let v1 := ver == .v1
  let c := a.clockAt m
  if req.pduType = getRequest then (a, a.tree.getRequest v1 req.vars c)
  else if req.pduType = getNextRequest then (a, a.tree.getNext v1 req.vars c)
  else if req.pduType = getBulkRequest then
    (a, a.tree.getBulk req.nonRepeaters req.maxRepetitions req.vars c)
  else if write then
    let (agent, ans) := a.toAgent.set g.toBigInt ver req.vars
    ({ a with toAgent := agent }, ans)
  else
    -- a SET from a manager that only reads
    let a := if ver = .v3 then a else a.add .badCommunityUses 1
    let status : SNMPError := if v1 then v1Status .noAccess else .noAccess
    (a, { vars := req.vars, status, index := errIndex 0 req.vars.length })

/-- What a request counts on arrival; a GETBULK counts as a GETNEXT. -/
def arrive (a : V3Agent) (req : V3Packet) : V3Agent :=
  if req.pduType = getRequest then a.add .inGets 1
  else if req.pduType = getNextRequest ∨ req.pduType = getBulkRequest then a.add .inGetNexts 1
  else if req.pduType = setRequest then a.add .inSets 1
  else a

/-- What an answer counts. -/
def leave (a : V3Agent) (req : V3Packet) (ans : Answer) : V3Agent :=
  let n := UInt32.ofNat ans.vars.length
  let a :=
    if ans.status ≠ .noError then a
    else if req.pduType = setRequest then a.add .inTotalSetVars n
    else a.add .inTotalReqVars n
  let a := if ans.status = .noSuchName then a.add .outNoSuchNames 1 else a
  a.add .outGetResponses 1

def process (a : V3Agent) (m : Moment) (ver : Version) (req : V3Packet) (write : Bool) :
    V3Agent × Answer :=
  let a := a.arrive req
  let (a, ans) :=
    match injectedError m.faults m.roll ver req.request with
    | some ans => (a, ans)
    | none => a.dispatch g m ver req write
  (a.leave req ans, ans)

/-- The end of `answerV3`: an answer is fitted to the message, and sent. -/
def send (a : V3Agent) (m : Moment) (h : V3Header) (u : V3User) (req : V3Packet) (ans : Answer) :
    V3Agent × Option Octets :=
  let encode (ans : Answer) :=
    g.marshalMsg { a.v3Packet (some u) u.name h.level h.msgID m.clock (m.salt ans) with
      pduType := getResponse
      requestID := req.requestID
      error := ans.status
      errorIndex := ans.index
      vars := ans.vars }
  match fit ans (bulkFloor req.request) (tooBig .v3 req.request)
      (min a.maxSize req.msgMaxSize.toNat) encode with
  | .ok out => (a, some out)
  | .error _ => a.silent .faults

/-- A request that every check has passed. -/
def respond (a : V3Agent) (m : Moment) (h : V3Header) (u : V3User) (req : V3Packet) :
    V3Agent × Option Octets :=
  if h.level < u.level then
    -- genuine, but below the level this user is held to: nothing is read
    a.send g m h u req { vars := req.vars, status := .authorizationError }
  else
    let (a, ans) := a.process g m .v3 req u.write
    a.send g m h u req ans

/-- What `answerV3` does with a request that is genuine. -/
def answerRequest (a : V3Agent) (m : Moment) (h : V3Header) (u : V3User) (req : V3Packet) :
    V3Agent × Option Octets :=
  if req.pduType ∉ [getRequest, getNextRequest, getBulkRequest, setRequest] then
    a.silent .unknownPDUHandlers
  else if req.contextEngineID ≠ [] ∧ req.contextEngineID ≠ a.engineID then
    a.report g m h (some u) h.level req.requestID ".1.3.6.1.6.3.11.2.1.3.0" .unknownPDUHandlers
  else if req.contextName ≠ [] then
    a.report g m h (some u) h.level req.requestID ".1.3.6.1.6.3.12.1.5.0" .unknownContexts
  else a.respond g m h u req

/-- What `answerV3` does with a message for a user of the agent's. -/
def answerUser (a : V3Agent) (m : Moment) (h : V3Header) (u : V3User) (msg : Octets) :
    V3Agent × Option Octets :=
  if u.level < h.level then
    a.report g m h none noAuthNoPriv h.requestID ".1.3.6.1.6.3.15.1.1.1.0" .unsupportedSecLevels
  else
    match g.unmarshalTrap h.level (u.params a.engineID h.level) msg with
    | .panic => a.silent .faults
    | .error => a.refuse g m h u h.level msg
    | .packet req =>
        if h.level ≠ noAuthNoPriv ∧ !a.inTimeWindow h m.clock then
          a.report g m h (some u) authNoPriv req.requestID ".1.3.6.1.6.3.15.1.1.2.0"
            .notInTimeWindows
        else a.answerRequest g m h u req

def answerV3 (a : V3Agent) (m : Moment) (msg : Octets) : V3Agent × Option Octets :=
  match peekV3 msg with
  | none => a.silent .faults
  | some (.error _) => a.silent .parseErrors
  | some (.ok h) =>
      -- 3 is `gosnmp.UserSecurityModel`
      if h.model ≠ 3 then a.silent .unknownSecurityModels
      else if h.level ∉ [noAuthNoPriv, authNoPriv, authPriv] then a.silent .invalidMsgs
      else if h.engineID ≠ a.engineID then
        a.report g m h none noAuthNoPriv h.requestID ".1.3.6.1.6.3.15.1.1.4.0" .unknownEngineIDs
      else
        match a.users h.user with
        | none =>
            a.authFailed.report g m h none noAuthNoPriv h.requestID ".1.3.6.1.6.3.15.1.1.3.0"
              .unknownUserNames
        | some u => a.answerUser g m h u msg

end

end V3Agent

end SnmpLens.Simulator
