import SnmpLens.Lib.Attempt
import SnmpLens.Poll.GetMany
import SnmpLens.Render.Event

/-!
# A received notification

`handleTrap`, `recordTrap`, `declineToAcknowledge` and `recoverTrapHandler` of
`pkg/snmp/trap.go`, and the application's `recordEvent`. The library acknowledges an
INFORM when the packet still is one after the handler has returned, so what the handler
leaves in `PDUType` is a promise: the notification is in the journal.

A panic is an error that nothing but `recoverTrapHandler` looks at. It is swallowed there
and the packet is left as it was found, so the promise is kept where an error comes back
and not where a panic does (`acknowledged_iff`).
-/

namespace SnmpLens.Traps

open Utf8 Strings Poll Render

/-! ## What is received -/

/-- `gosnmp.PDUType`, by its tag. -/
def trapPDU : UInt8 := 0xa4

def informRequest : UInt8 := 0xa6

def snmpV2Trap : UInt8 := 0xa7

/-- `gosnmp.SnmpPacket` of a notification; version 1 is `0`. -/
structure Packet where
  version : UInt8
  pduType : UInt8
  enterprise : Octets := []
  genericTrap : Int := 0
  specificTrap : Int := 0
  timestamp : Nat := 0
  agentAddress : Octets := []
  vars : List SnmpPDU := []
deriving DecidableEq, Repr

/-- `net.UDPAddr`: the text of its address, where it has one. -/
structure UDPAddr where
  ip : Option Octets
deriving DecidableEq, Repr

/-- A place in the handler. -/
inductive Point where
  /-- The line about the arrival. -/
  | received
  /-- `formatSnmpValue` of one varbind. -/
  | varbind (i : Nat)
  /-- The source, the time and what the window is told. -/
  | described
  /-- `trapOIDFrom`. -/
  | named
  /-- `json.Marshal`. -/
  | marshalled
  | summarised
  /-- The line about a notification that is not in the journal. -/
  | failureLogged
  /-- The line about an acknowledgement that is withheld. -/
  | declineLogged
  /-- The window is told about the notification. -/
  | emitted
deriving DecidableEq, Repr

/-- What comes of one `InsertEvent`. -/
inductive Insert where
  | saved
  | refused (err : Octets)
  /-- It panics, after the transaction is committed or before. -/
  | panicked (committed : Bool)
deriving DecidableEq, Repr

/-- What one `recordEvent` meets. -/
structure Recording where
  insert : Insert := .saved
  /-- Handing the event to the router panics. -/
  routePanics : Bool := false
  /-- Telling the window panics. -/
  emitPanics : Bool := false
deriving DecidableEq, Repr

/-- What is around the handler while it runs. -/
structure World where
  gosnmp : Gosnmp
  /-- `SnmpVersion.String`. -/
  versionName : UInt8 → Octets
  /-- `json.Marshal` of the varbinds. -/
  marshal : List Result → Option Octets
  /-- `time.Now().UTC().Format(time.RFC3339)`. -/
  now : Octets
  /-- `a.storage != nil`. -/
  storage : Bool := true
  /-- `ctx != nil`, of the client and of the application. -/
  window : Bool := true
  /-- Where the handler panics. -/
  panics : Point → Bool := fun _ => false
  /-- How the notification's own event fares. -/
  trap : Recording := {}
  /-- How the event about a panic fares. -/
  report : Recording := {}

/-- What a window is told. -/
inductive Emitted where
  | eventNew (e : Event)
  | newTrap (source version : Octets) (vars : List Result) (pduType timestamp : Octets)
deriving DecidableEq, Repr

/-- What a handler changes: the packet it was given, and what it has put in the journal. -/
structure Handling where
  packet : Option Packet
  journalled : List (Event × Octets) := []
  emitted : List Emitted := []
deriving DecidableEq, Repr

/-- A piece of the handler; what it panics with is an error. -/
abbrev Handler (α : Type) : Type := Attempt Octets Handling α

/-! ## The event -/

/-- `fmt.Sprintf("%v", value)` of what `formatSnmpValue` returns. -/
def sprint : Formatted → Octets
  | .text s => s
  | .int64 n => Strings.formatInt n
  | .uint64 n => formatUint n

/-- The varbinds `handleTrap` makes up for a trap of version 1. -/
def v1Vars (p : Packet) : List Result :=
  if p.version = 0 ∧ p.pduType = trapPDU then
    [ { oid := octets "snmpTrapOID.0", type := octets "SNMPv1 Trap", value := .text p.enterprise },
      { oid := octets "genericTrap", type := octets "INTEGER", value := .int64 p.genericTrap },
      { oid := octets "specificTrap", type := octets "INTEGER", value := .int64 p.specificTrap },
      { oid := octets "timestamp", type := octets "TimeTicks", value := .uint64 p.timestamp },
      { oid := octets "agentAddress", type := octets "IPAddress", value := .text p.agentAddress } ]
  else []

/-- `pduType`. -/
def pduTypeName (p : Packet) : Octets :=
  if p.pduType = informRequest then octets "Inform" else octets "Trap"

def snmpTrapOIDInstance : Octets := octets "1.3.6.1.6.3.1.1.4.1.0"

def trapOIDFrom (vars : List Result) : Octets :=
  match vars.find? fun v =>
    v.oid.dropWhile (· == 46) == snmpTrapOIDInstance || (octets "snmpTrapOID").isPrefixOf v.oid with
  | some v => sprint v.value
  | none => []

def trapKind (pduType : Octets) : Octets :=
  if pduType = octets "Inform" then octets "trap.inform" else octets "trap.received"

/-- The event `recordTrap` writes. -/
def trapEvent (source ts pduType version : Octets) (vars : List Result) : Event where
  ts := ts
  category := octets "trap"
  kind := trapKind pduType
  severity := octets "minor"
  state := octets "oneshot"
  source := source
  oid := trapOIDFrom vars
  dedupKey := octets "trap|" ++ source ++ octets "|" ++ trapOIDFrom vars
  titleKey := octets "events.kind." ++ trapKind pduType
  params :=
    [(octets "source", .str source), (octets "version", .str version),
      (octets "pduType", .str pduType), (octets "varbinds", .int vars.length),
      (octets "trapOid", .str (trapOIDFrom vars))]
  summary := pduType ++ octets " from " ++ source ++ octets " (" ++ version ++ octets ", " ++
    formatUint vars.length ++ octets " varbinds)"

/-- The event `recoverTrapHandler` writes. -/
def panicEvent (source ts r : Octets) : Event where
  ts := ts
  category := octets "system"
  kind := octets "system.listener_error"
  severity := octets "major"
  state := octets "oneshot"
  source := source
  dedupKey := octets "trap.panic|" ++ source
  titleKey := octets "events.kind.system.listener_error"
  summary := octets "Dropped a trap from " ++ source ++ octets ": the handler panicked (" ++ r ++
    octets ")"
  params := [(octets "source", .str source)]

/-! ## The handler -/

namespace World

variable (w : World)

def point (p : Point) : Handler Unit :=
  if w.panics p then Attempt.fail (octets "panic") else pure ()

/-- What a nil pointer is met with. -/
def nilDereference : Octets :=
  octets "runtime error: invalid memory address or nil pointer dereference"

/-- `addr.IP.String()`. -/
def ipString (addr : Option UDPAddr) : Handler Octets :=
  match addr with
  | none => Attempt.fail nilDereference
  | some a => pure (a.ip.getD (octets "<nil>"))

/-- The packet, where it is read. -/
def deref (packet : Option Packet) : Handler Packet :=
  match packet with
  | none => Attempt.fail nilDereference
  | some p => pure p

def journal (e : Event) (payload : Octets) : Handler Unit :=
  Attempt.modify fun s => { s with journalled := s.journalled ++ [(e, payload)] }

def emit (m : Emitted) : Handler Unit :=
  Attempt.modify fun s => { s with emitted := s.emitted ++ [m] }

/-- `App.recordEvent`, the only recorder there is. -/
def recordEvent (r : Recording) (e : Event) (payload : Octets) : Handler (Except Octets Unit) :=
  if w.storage = false then pure (.error (octets "storage not initialized"))
  else
    match r.insert with
    | .refused err => pure (.error err)
    | .panicked true => do
        journal e payload
        Attempt.fail (octets "panic")
    | .panicked false => Attempt.fail (octets "panic")
    | .saved => do
        journal e payload
        if r.routePanics then Attempt.fail (octets "panic")
        else if w.window = false then pure (.ok ())
        else if r.emitPanics then Attempt.fail (octets "panic")
        else do
          emit (.eventNew e)
          pure (.ok ())

/-- The line about a notification that is not in the journal. -/
def logFailure (saved : Except Octets Unit) : Handler (Except Octets Unit) :=
  match saved with
  | .error err => do
      w.point .failureLogged
      pure (.error err)
  | .ok () => pure (.ok ())

/-- `recordTrap`. What cannot be marshalled is written as an empty list. -/
def recordTrap (source ts pduType : Octets) (p : Packet) (vars : List Result) :
    Handler (Except Octets Unit) := do
  w.point .named
  w.point .marshalled
  w.point .summarised
  let saved ← w.recordEvent w.trap (trapEvent source ts pduType (w.versionName p.version) vars)
    ((w.marshal vars).getD (octets "[]"))
  w.logFailure saved

/-- `declineToAcknowledge`: the type is altered first and the line is written after. -/
def declineToAcknowledge : Handler Unit := do
  let s ← Attempt.get
  match s.packet with
  | none => pure ()
  | some p =>
      if p.pduType ≠ informRequest then pure ()
      else do
        Attempt.modify fun s => { s with packet := some { p with pduType := snmpV2Trap } }
        w.point .declineLogged

/-- What is done about the answer of `recordTrap`. -/
def settle (saved : Except Octets Unit) : Handler Unit :=
  match saved with
  | .error _ => w.declineToAcknowledge
  | .ok () => pure ()

/-- The window is told, where there is one. -/
def tell (m : Emitted) : Handler Unit :=
  if w.window then do
    w.point .emitted
    emit m
  else pure ()

/-- The loop over the varbinds. -/
def formatVars : Nat → List SnmpPDU → Handler (List Result)
  | _, [] => pure []
  | i, v :: rest => do
      w.point (.varbind i)
      let more ← formatVars (i + 1) rest
      pure (resultOf w.gosnmp v :: more)

/-- `recoverTrapHandler`, of what was recovered. The line it writes is out of the model: only
the record can panic, and it has a guard of its own. -/
def recoverTrapHandler (addr : Option UDPAddr) (r : Octets) : Handler Unit :=
  let source := (addr.bind UDPAddr.ip).getD (octets "unknown")
  Attempt.rescue
    (do
      let _ ← w.recordEvent w.report (panicEvent source w.now r) []
      pure ())
    fun _ => pure ()

/-- The body of `handleTrap`, which nothing guards. -/
def handle (packet : Option Packet) (addr : Option UDPAddr) : Handler Unit := do
  let source ← ipString addr
  let p ← deref packet
  w.point .received
  let varbinds ← w.formatVars 0 p.vars
  let vars := v1Vars p ++ varbinds
  w.point .described
  let saved ← w.recordTrap source w.now (pduTypeName p) p vars
  w.settle saved
  w.tell (.newTrap source (w.versionName p.version) vars (pduTypeName p) w.now)

def handleTrap (packet : Option Packet) (addr : Option UDPAddr) : Handler Unit :=
  Attempt.rescue (w.handle packet addr) (w.recoverTrapHandler addr)

/-! ## What is promised -/

/-- The varbinds of a notification, as they are shown. -/
def varbindsOf (p : Packet) : List Result := v1Vars p ++ p.vars.map (resultOf w.gosnmp)

/-- What stands in the journal for a notification. -/
def written (p : Packet) (a : UDPAddr) : Event × Octets :=
  (trapEvent (a.ip.getD (octets "<nil>")) w.now (pduTypeName p) (w.versionName p.version)
      (w.varbindsOf p),
    (w.marshal (w.varbindsOf p)).getD (octets "[]"))

/-- The notification is in the journal before anything panics, as far as the handler's own
steps go. -/
structure Quiet (p : Packet) : Prop where
  received : w.panics .received = false
  varbinds : ∀ i < p.vars.length, w.panics (.varbind i) = false
  described : w.panics .described = false
  named : w.panics .named = false
  marshalled : w.panics .marshalled = false
  summarised : w.panics .summarised = false

/-- The insert is committed, or its failure comes back as an error that is got as far as
`declineToAcknowledge`. -/
def Answered : Prop :=
  if w.storage = false then w.panics .failureLogged = false
  else
    match w.trap.insert with
    | .saved => True
    | .refused _ => w.panics .failureLogged = false
    | .panicked committed => committed = true

end World

/-- The library acknowledges what still is an INFORM once the handler has returned. -/
def Acknowledged (s : Handling) : Prop := ∃ p ∈ s.packet, p.pduType = informRequest

/-- **The promise**: what is acknowledged is in the journal. -/
def Kept (w : World) (packet : Option Packet) (addr : Option UDPAddr) (s : Handling) : Prop :=
  Acknowledged s → ∃ p ∈ packet, ∃ a ∈ addr, w.written p a ∈ s.journalled

section

variable {w : World} {packet : Option Packet} {addr : Option UDPAddr} {s : Handling}

variable {E : Octets → Handling → Prop}

namespace World

/-! ## One step -/

theorem ends_point {x : Point} {Q : Unit → Handling → Prop} :
    Attempt.Ends (w.point x) s Q E ↔
      if w.panics x then E (octets "panic") s else Q () s := by
  unfold point
  split <;> exact Iff.rfl

theorem ends_formatVars {Q : List Result → Handling → Prop} (vs : List SnmpPDU) (i : Nat) :
    Attempt.Ends (w.formatVars i vs) s Q E ↔
      if ∀ j < vs.length, w.panics (.varbind (i + j)) = false then Q (vs.map (resultOf w.gosnmp)) s
      else E (octets "panic") s := by
  induction vs generalizing i Q with
  | nil => simp [formatVars]
  | cons v rest ih =>
      rw [formatVars, Attempt.ends_bind, ends_point]
      by_cases hpanic : w.panics (.varbind i) = true
      · rw [if_pos hpanic, if_neg]
        intro h
        have := h 0 (by simp)
        rw [Nat.add_zero, hpanic] at this
        cases this
      · rw [if_neg hpanic, Attempt.ends_bind, ih]
        -- the rest is asked about from the next position on
        have hrest : (∀ j < rest.length, w.panics (.varbind (i + 1 + j)) = false) ↔
            ∀ j < (v :: rest).length, w.panics (.varbind (i + j)) = false := by
          constructor
          · intro h j hj
            cases j with
            | zero => simpa using hpanic
            | succ j =>
                have := h j (by rw [List.length_cons] at hj; omega)
                rwa [show i + 1 + j = i + (j + 1) by omega] at this
          · intro h j hj
            have := h (j + 1) (by rw [List.length_cons]; omega)
            rwa [show i + (j + 1) = i + 1 + j by omega] at this
        simp only [hrest, Attempt.ends_pure, List.map_cons]

theorem panicEvent_ne (source ts r : Octets) (p : Packet) (a : UDPAddr) (payload : Octets) :
    w.written p a ≠ (panicEvent source ts r, payload) := by
  intro h
  have : octets "trap" = octets "system" := congrArg (fun x => x.1.category) h
  cases this

end World

theorem kept_journal {e : Event} {payload : Octets} (h : ∀ p a, w.written p a ≠ (e, payload)) :
    Kept w packet addr { s with journalled := s.journalled ++ [(e, payload)] } ↔
      Kept w packet addr s := by
  unfold Kept
  refine imp_congr Iff.rfl ⟨?_, ?_⟩
  · rintro ⟨p, hp, a, ha, hmem⟩
    refine ⟨p, hp, a, ha, ?_⟩
    rcases List.mem_append.mp hmem with hmem | hmem
    · exact hmem
    · exact absurd (List.mem_singleton.mp hmem) (h p a)
  · rintro ⟨p, hp, a, ha, hmem⟩
    exact ⟨p, hp, a, ha, List.mem_append_left _ hmem⟩

/-- What is done about a panic keeps no promise that was broken, and breaks none. -/
theorem kept_recover (r : Octets) :
    Attempt.Ends (w.recoverTrapHandler addr r) s (fun _ => Kept w packet addr) E ↔
      Kept w packet addr s := by
  have hjournal := @kept_journal w packet addr s
    (panicEvent ((addr.bind UDPAddr.ip).getD (octets "unknown")) w.now r) []
    fun p a => World.panicEvent_ne _ _ _ p a _
  unfold World.recoverTrapHandler World.recordEvent
  rw [Attempt.ends_rescue, Attempt.ends_bind]
  by_cases hstorage : w.storage = false
  · rw [if_pos hstorage]
    exact Iff.rfl
  · rw [if_neg hstorage]
    cases w.report.insert with
    | refused err => exact Iff.rfl
    | panicked committed =>
        cases committed with
        | true => exact hjournal
        | false => exact Iff.rfl
    | saved =>
        dsimp only
        rw [Attempt.ends_bind]
        cases w.report.routePanics <;> cases w.window <;> cases w.report.emitPanics <;>
          exact hjournal

theorem kept_tell (m : Emitted) :
    Attempt.Ends (w.tell m) s (fun _ => Kept w packet addr) (fun _ => Kept w packet addr) ↔
      Kept w packet addr s := by
  unfold World.tell
  cases w.window with
  | false => exact Iff.rfl
  | true =>
      rw [if_pos rfl, Attempt.ends_bind, World.ends_point]
      split <;> exact Iff.rfl

/-- An INFORM that was declined is none, also where the line about it panics. -/
theorem kept_decline {m : Emitted} :
    Attempt.Ends (w.declineToAcknowledge) s
      (fun _ t => Attempt.Ends (w.tell m) t (fun _ => Kept w packet addr)
        fun _ => Kept w packet addr)
      fun _ => Kept w packet addr := by
  unfold World.declineToAcknowledge
  rw [Attempt.ends_bind, Attempt.ends_get]
  have hnone : ∀ t : Handling, ¬ Acknowledged t → Kept w packet addr t := fun t hno hack =>
    absurd hack hno
  cases hp : s.packet with
  | none =>
      refine (kept_tell m).mpr (hnone s ?_)
      rintro ⟨p, hmem, _⟩
      rw [hp] at hmem
      cases hmem
  | some p =>
      dsimp only
      by_cases htype : p.pduType = informRequest
      · rw [if_neg (not_not_intro htype), Attempt.ends_bind, Attempt.ends_modify, World.ends_point]
        -- the type is altered before the line is written
        have hdeclined : Kept w packet addr
            { s with packet := some { p with pduType := snmpV2Trap } } := by
          refine hnone _ ?_
          rintro ⟨q, hmem, hq⟩
          cases hmem
          exact absurd (show snmpV2Trap = informRequest from hq) (by decide)
        split
        · exact hdeclined
        · exact (kept_tell m).mpr hdeclined
      · rw [if_pos htype]
        refine (kept_tell m).mpr (hnone s ?_)
        rintro ⟨q, hmem, hq⟩
        rw [hp] at hmem
        cases hmem
        exact htype hq

/-- Where nothing has been journalled yet, only what was no INFORM keeps the promise. -/
theorem kept_start {p : Packet} :
    Kept w packet addr { packet := some p } ↔ p.pduType ≠ informRequest := by
  constructor
  · rintro h htype
    obtain ⟨_, _, _, _, hmem⟩ := h ⟨p, rfl, htype⟩
    cases hmem
  · rintro h ⟨q, hmem, hq⟩
    cases hmem
    exact absurd hq h

/-- What follows the record, for the promise. -/
def Followed (w : World) (packet : Option Packet) (addr : Option UDPAddr) (m : Emitted)
    (saved : Except Octets Unit) (s : Handling) : Prop :=
  Attempt.Ends (w.logFailure saved) s
    (fun saved t => Attempt.Ends (w.settle saved) t
      (fun _ t => Attempt.Ends (w.tell m) t (fun _ => Kept w packet addr)
        fun _ => Kept w packet addr)
      fun _ => Kept w packet addr)
    fun _ => Kept w packet addr

theorem followed_ok {m : Emitted} : Followed w packet addr m (.ok ()) s ↔ Kept w packet addr s :=
  kept_tell m

theorem followed_error {m : Emitted} {err : Octets} :
    Followed w packet addr m (.error err) s ↔
      (w.panics .failureLogged = true → Kept w packet addr s) := by
  unfold Followed World.logFailure
  rw [Attempt.ends_bind, World.ends_point]
  by_cases hpanic : w.panics .failureLogged = true
  · rw [if_pos hpanic]
    exact (true_imp_iff.symm.trans (imp_congr_left (by simp [hpanic])))
  · rw [if_neg hpanic]
    exact iff_of_true kept_decline fun h => absurd h hpanic

theorem followed_record {p : Packet} {a : UDPAddr} {m : Emitted} :
    Attempt.Ends
      (w.recordEvent w.trap (w.written p a).1 (w.written p a).2) { packet := some p }
      (Followed w (some p) (some a) m) (fun _ => Kept w (some p) (some a)) ↔
        (p.pduType = informRequest → w.Answered) := by
  have hwritten : ∀ emitted, Kept w (some p) (some a)
      ⟨some p, [] ++ [w.written p a], emitted⟩ := fun emitted _ =>
    ⟨p, rfl, a, rfl, by simp⟩
  have herror : ∀ err, Followed w (some p) (some a) m (.error err) { packet := some p } ↔
      (p.pduType = informRequest → w.panics .failureLogged = false) := by
    intro err
    rw [followed_error, kept_start, ← Bool.not_eq_true]
    exact ⟨fun h htype hpanic => h hpanic htype, fun h hpanic htype => h htype hpanic⟩
  unfold World.recordEvent World.Answered
  by_cases hstorage : w.storage = false
  · rw [if_pos hstorage, if_pos hstorage]
    exact herror _
  · rw [if_neg hstorage, if_neg hstorage]
    cases w.trap.insert with
    | refused err => exact herror err
    | panicked committed =>
        cases committed with
        | true => exact iff_of_true (hwritten _) fun _ => rfl
        | false => exact kept_start.trans (by simp)
    | saved =>
        -- from the insert on nothing can break the promise
        refine iff_of_true ?_ fun _ => trivial
        dsimp only
        rw [Attempt.ends_bind]
        cases w.trap.routePanics <;> cases w.window <;> cases w.trap.emitPanics <;>
          first
            | exact hwritten _
            | exact followed_ok.mpr (hwritten _)

theorem kept_point {p : Packet} {x : Point} {R : Prop} {f : Unit → Handler α}
    {Q : α → Handling → Prop}
    (h : Attempt.Ends (f ()) { packet := some p } Q (fun _ => Kept w (some p) addr) ↔
      (p.pduType = informRequest → R)) :
    Attempt.Ends (w.point x >>= f) { packet := some p } Q (fun _ => Kept w (some p) addr) ↔
      (p.pduType = informRequest → w.panics x = false ∧ R) := by
  rw [Attempt.ends_bind, World.ends_point]
  by_cases hpanic : w.panics x = true
  · rw [if_pos hpanic, kept_start, hpanic]
    simp
  · rw [if_neg hpanic, h]
    simp [hpanic]

theorem kept_handle {p : Packet} {a : UDPAddr} :
    Attempt.Ends (w.handle (some p) (some a)) { packet := some p }
      (fun _ => Kept w (some p) (some a)) (fun _ => Kept w (some p) (some a)) ↔
        (p.pduType = informRequest → w.Quiet p ∧ w.Answered) := by
  have hrecord : Attempt.Ends
      (w.recordTrap (a.ip.getD (octets "<nil>")) w.now (pduTypeName p) p (w.varbindsOf p))
      { packet := some p }
      (fun saved t => Attempt.Ends (w.settle saved) t
        (fun _ t => Attempt.Ends (w.tell (.newTrap (a.ip.getD (octets "<nil>"))
            (w.versionName p.version) (w.varbindsOf p) (pduTypeName p) w.now)) t
          (fun _ => Kept w (some p) (some a)) fun _ => Kept w (some p) (some a))
        fun _ => Kept w (some p) (some a))
      (fun _ => Kept w (some p) (some a)) ↔
        (p.pduType = informRequest → w.panics .named = false ∧ w.panics .marshalled = false ∧
          w.panics .summarised = false ∧ w.Answered) := by
    refine kept_point (kept_point (kept_point ?_))
    rw [Attempt.ends_bind]
    exact followed_record
  have hvars : Attempt.Ends (w.handle (some p) (some a)) { packet := some p }
      (fun _ => Kept w (some p) (some a)) (fun _ => Kept w (some p) (some a)) ↔
        (p.pduType = informRequest → w.panics .received = false ∧
          (∀ i < p.vars.length, w.panics (.varbind i) = false) ∧ w.panics .described = false ∧
            w.panics .named = false ∧ w.panics .marshalled = false ∧
              w.panics .summarised = false ∧ w.Answered) := by
    refine kept_point ?_
    rw [Attempt.ends_bind, World.ends_formatVars]
    by_cases hquiet : ∀ j < p.vars.length, w.panics (.varbind (0 + j)) = false
    · rw [if_pos hquiet]
      simp only [Nat.zero_add] at hquiet
      refine (kept_point (R := _) ?_).trans (imp_congr_right fun _ => (and_iff_right hquiet).symm)
      rw [Attempt.ends_bind]
      simp only [Attempt.ends_bind]
      exact hrecord
    · rw [if_neg hquiet, kept_start]
      simp only [Nat.zero_add] at hquiet
      exact ⟨fun h htype => absurd htype h, fun h htype => hquiet (h htype).1⟩
  refine hvars.trans (imp_congr_right fun _ => ?_)
  constructor
  · rintro ⟨hreceived, hvarbinds, hdescribed, hnamed, hmarshalled, hsummarised, hanswered⟩
    exact ⟨⟨hreceived, hvarbinds, hdescribed, hnamed, hmarshalled, hsummarised⟩, hanswered⟩
  · rintro ⟨hquiet, hanswered⟩
    exact ⟨hquiet.received, hquiet.varbinds, hquiet.described, hquiet.named, hquiet.marshalled,
      hquiet.summarised, hanswered⟩

/-- **What an acknowledgement is worth**: a notification that still is an INFORM when its
handler has returned is in the journal exactly where, being an INFORM, it met no panic
before its event was inserted, and no failed insert whose line panics. -/
theorem acknowledged_iff (w : World) (packet : Option Packet) (addr : Option UDPAddr) :
    Kept w packet addr (w.handleTrap packet addr { packet }).2 ↔
      ∀ p ∈ packet, p.pduType = informRequest →
        addr.isSome = true ∧ w.Quiet p ∧ w.Answered := by
  refine Attempt.Ends.state.symm.trans ?_
  unfold World.handleTrap
  rw [Attempt.ends_rescue]
  simp only [kept_recover]
  cases packet with
  | none =>
      -- nothing is acknowledged where there is no packet
      have hkept : Kept w none addr { packet := none } := by
        rintro ⟨p, hp, _⟩
        cases hp
      refine iff_of_true ?_ (by simp)
      cases addr <;> exact hkept
  | some p =>
      cases addr with
      | none =>
          refine Iff.trans (show _ ↔ Kept w (some p) none { packet := some p } from Iff.rfl) ?_
          rw [kept_start]
          simp
      | some a =>
          rw [kept_handle]
          simp

end

/-- An INFORM of one varbind. -/
def inform : Packet where
  version := 1
  pduType := informRequest
  vars := [{ name := octets ".1.3.6.1.2.1.1.3.0", type := 0x43, value := .number 7 }]

/-- A handler that panics over the first varbind. -/
def overVarbind : World where
  gosnmp :=
    { typeName := fun _ => octets "TimeTicks"
      toBigInt := fun v => match v with
        | .number n => n
        | _ => 0
      sprint := fun _ => []
      isPrint := fun c => 32 ≤ c.toNat && c.toNat < 127 }
  versionName := fun _ => octets "2c"
  marshal := fun _ => some (octets "[]")
  now := octets "2026-01-02T03:04:05Z"
  panics := fun x => x == .varbind 0

/-- The INFORM is acknowledged, and all there is in the journal is the panic. -/
theorem panicked_acknowledged :
    ¬ Kept overVarbind (some inform) (some ⟨some (octets "192.0.2.7")⟩)
        (overVarbind.handleTrap (some inform) (some ⟨some (octets "192.0.2.7")⟩)
          { packet := some inform }).2 := by
  intro h
  obtain ⟨p, _, a, _, hmem⟩ := h ⟨inform, rfl, rfl⟩
  -- what the panic is told as is another event
  have hmem : overVarbind.written p a ∈
      [(panicEvent (octets "192.0.2.7") overVarbind.now (octets "panic"), [])] := hmem
  exact World.panicEvent_ne _ _ _ p a _ (List.mem_singleton.mp hmem)

end SnmpLens.Traps
