import SnmpLens.Lib.Fold
import SnmpLens.Lib.Netip
import SnmpLens.Simulator.Device

/-!
# The simulator service

`internal/app/simulator.go` and `simbench.go`: the list of simulated devices, the file it is
written to, the credential store their secrets are kept in, and the devices that run. A call has
the service's lock from one end to the other, so a step of the service is a whole call, with what
the machine answers to it: the IDs that are drawn, the addresses that can be bound, and whether
the credential store, the file and the start of a device fail.

What `Validate` objects to is a parameter, and so is `NewEngineID`; nothing here depends on them.
Where a device answers is read from its address as `CheckListen` of `pkg/simulator/listen.go`
reads it, and the service compares the texts.
-/

namespace SnmpLens.Simulator

open Utf8 Strings

/-! ## Devices with their secrets -/

structure User where
  name : Octets
  secLevel : Octets := []
  authProto : Octets := []
  authPass : Octets := []
  privProto : Octets := []
  privPass : Octets := []
  write : Bool := false

structure Destination where
  id : Octets
  host : Octets
  port : Int := 162
  version : Octets := []
  inform : Bool := false
  community : Octets := []
  user : Octets := []
  engineID : Octets := []

structure Traps (σ : Type) where
  destinations : List Destination := []
  onStart : Bool := false
  onAuthFailure : Bool := false
  schedules : List σ := []

structure UserSecrets where
  authPass : Octets := []
  privPass : Octets := []

/-- `DeviceSecrets`. A map answers the zero value for what is not in it, and the last entry under a
key for what is. -/
structure DeviceSecrets where
  community : Octets := []
  writeCommunity : Octets := []
  users : Octets → UserSecrets := fun _ => {}
  destinations : Octets → Octets := fun _ => []

variable {σ φ : Type}

/-- A device, with its schedules and its faults as they are written elsewhere. -/
abbrev Simulated (σ φ : Type) : Type := Device User (Traps σ) φ

namespace Device

def secrets (d : Simulated σ φ) : DeviceSecrets where
  community := d.community
  writeCommunity := d.writeCommunity
  users name :=
    match d.users.reverse.find? fun u => u.name == name with
    | some u => { authPass := u.authPass, privPass := u.privPass }
    | none => {}
  destinations id :=
    match d.traps.destinations.reverse.find? fun dest => dest.id == id with
    | some dest => dest.community
    | none => []

def withSecrets (d : Simulated σ φ) (s : DeviceSecrets) : Simulated σ φ :=
  { d with
    community := s.community
    writeCommunity := s.writeCommunity
    users := d.users.map fun u =>
      { u with authPass := (s.users u.name).authPass, privPass := (s.users u.name).privPass }
    traps := { d.traps with
      destinations := d.traps.destinations.map fun dest =>
        { dest with community := s.destinations dest.id } } }

def withoutSecrets (d : Simulated σ φ) : Simulated σ φ := d.withSecrets {}

/-- The device `ValidateWithoutSecrets` validates. -/
def withStandIns (d : Simulated σ φ) : Simulated σ φ :=
  let standIn := octets "stand-in-secret"
  { d.withSecrets
      { community := standIn
        users := fun _ => { authPass := standIn, privPass := standIn }
        destinations := fun _ => standIn } with
    writeCommunity := [] }

end Device

/-! ## Where a device answers -/

/-- `Addr.IsLoopback`, of an address that has been unmapped. -/
def isLoopback : Netip.Addr → Bool
  | .v4 bits => bits.toNat / 2 ^ 24 == 127
  | .v6 bits _ => bits.toNat == 1

def zoneOf : Netip.Addr → String
  | .v4 _ => ""
  | .v6 _ zone => zone

def checkListen (addr : Octets) : Option (Netip.Addr × Nat) := do
  let addr := trimSpace addr
  let host ← Netip.splitHost (Netip.shown addr)
  let p ← parseUint 16 (addr.reverse.takeWhile (· ≠ 58)).reverse
  let host :=
    if Fold.equalFold (host.map fun c => UInt8.ofNat c.toNat) (octets "localhost")
    then Netip.shown (octets "127.0.0.1") else host
  let ip ← Netip.parseAddr host
  if zoneOf ip ≠ "" then none
  else if !isLoopback ip.unmap then none
  else some (ip.unmap, p)

/-- Two devices answer on one address and port. -/
def Clash (a b : Simulated σ φ) : Prop :=
  ∃ at_, checkListen a.listen = some at_ ∧ checkListen b.listen = some at_

/-- No two devices of a list do. -/
def NoClash (ds : List (Simulated σ φ)) : Prop := ds.Pairwise fun a b => ¬ Clash a b

def suggestAddress (windows : Bool) (taken : List Octets) (free : Octets → Bool) : Octets × Nat :=
  let port := if windows then 161 else 1161
  let hosts := (List.range' 2 253).map fun host => (octets "127.0.0." ++ formatUint host, port)
  let ports := (List.range' port 100).map fun p => (octets "127.0.0.1", p)
  let usable := fun (a : Octets × Nat) =>
    !taken.contains (joinHostPort a.1 a.2) && free (joinHostPort a.1 a.2)
  ((hosts ++ ports).find? usable).getD (octets "127.0.0.1", port)

/-! ## The service -/

structure Service (σ φ : Type) where
  devices : List (Simulated σ φ) := []
  /-- The devices in the file. -/
  file : List (Simulated σ φ) := []
  /-- The credential store is there. -/
  store : Bool := true
  /-- What is stored under `SimulatorDeviceRef` of an ID. -/
  creds : Octets → Option DeviceSecrets := fun _ => none
  /-- The IDs of the fleet's agents. -/
  running : Octets → Bool := fun _ => false

/-- The rest of the program. -/
structure Rules (σ φ : Type) where
  validate : Simulated σ φ → Option DeviceError
  checkFaults : φ → Bool
  /-- `NewEngineID`, of a model and a device's ID. -/
  newEngineID : Octets → Octets → Option Octets
  windows : Bool

/-- What the machine answers while a device is made. -/
structure Draw where
  /-- `NewDeviceID`. -/
  id : Octets
  /-- `NewDestinationID`, for the destination at a position. -/
  destinationID : Nat → Octets := fun _ => []
  /-- `canBindUDP`. -/
  free : Octets → Bool := fun _ => true
  sets : Bool := true
  deletes : Bool := true

/-- What it answers while a device is started. -/
structure Start where
  gets : Bool := true
  writes : Bool := true
  starts : Bool := true

inductive Refusal where
  | noStore
  | noDevice (id : Octets)
  | noEngineID
  | invalid (err : DeviceError)
  | answersThere (name : Octets) (listen : Octets)
  | credentials
  | file
  | faults
  | start

/-- What a call answers: its error, and whether the new list was written first. -/
structure Outcome where
  error : Option Refusal := none
  written : Bool := false

/-- A call reports an error before its new device list was written. -/
def Outcome.Refused (a : Outcome) : Prop := a.error.isSome = true ∧ a.written = false

inductive Op (σ φ : Type) where
  | save (d : Simulated σ φ) (draw : Draw) (writes : Bool) (restart : Start)
  | delete (id : Octets) (writes deletes : Bool)
  | duplicate (id name : Octets) (draw : Draw) (gets writes : Bool)
  | setFaults (id : Octets) (faults : φ) (writes sets : Bool)
  /-- A file of devices, each with what the machine answers while it is made. -/
  | importDevices (withSecrets : Bool) (devices : List (Simulated σ φ × Draw)) (writes : Bool)
  | start (id : Octets) (start : Start)
  | stop (id : Octets)
  /-- The application starts again, and reads the file or does not. -/
  | restart (reads opens : Bool)

namespace Service

variable (rules : Rules σ φ)

def index (s : Service σ φ) (id : Octets) : Option Nat := s.devices.findIdx? fun d => d.id == id

/-- A device list that was written takes the place of the one there was. -/
def written (s : Service σ φ) (next : List (Simulated σ φ)) : Service σ φ :=
  { s with devices := next, file := next.map Device.withoutSecrets }

/-- An entry of the credential store. -/
def keep (s : Service σ φ) (id : Octets) (creds : Option DeviceSecrets) : Service σ φ :=
  { s with creds := fun other => if other = id then creds else s.creds other }

/-- `fleet.Stop`, or a start. -/
def runs (s : Service σ φ) (id : Octets) (running : Bool) : Service σ φ :=
  { s with running := fun other => if other = id then running else s.running other }

/-- `simulatorSecrets`, of a store that answers. -/
def simulatorSecrets (s : Service σ φ) (id : Octets) : DeviceSecrets := (s.creds id).getD {}

def startSimulatedLocked (s : Service σ φ) (i : Nat) (start : Start) : Service σ φ × Outcome :=
  match s.devices[i]? with
  | none => (s, {})
  | some d =>
      if !start.gets || !s.store then (s, { error := some .credentials })
      else if !start.writes then (s, { error := some .file })
      else
        let d := { d with engineBoots := (d.engineBoots + 1) % 4294967296 }
        let t := s.written (s.devices.set i d)
        if (rules.validate (d.withSecrets (s.simulatorSecrets d.id))).isSome || s.running d.id ||
            !start.starts then (t, { error := some .start, written := true })
        else (t.runs d.id true, { written := true })

/-- A device as it is given to `SimulatorSaveDevice`, with its destinations' IDs. -/
def trimmed (d : Simulated σ φ) (draw : Draw) : Simulated σ φ :=
  { d with
    name := trimSpace d.name
    address := trimSpace d.address
    traps := { d.traps with
      destinations := d.traps.destinations.mapIdx fun i dest =>
        { dest with
          host := trimSpace dest.host
          id := if dest.id = [] then draw.destinationID i else dest.id } } }

/-- The ID and the engine of a device that is saved, and where it is in the list. -/
def identified (s : Service σ φ) (d : Simulated σ φ) (draw : Draw) :
    Except Refusal (Option Nat × Simulated σ φ) :=
  if d.id = [] then
    match rules.newEngineID d.model draw.id with
    | none => .error .noEngineID
    | some engineID => .ok (none, { d with id := draw.id, engineBoots := 0, engineID })
  else
    match s.index d.id, (s.index d.id).bind (s.devices[·]?) with
    | some i, some old => .ok (some i, { d with
        engineID := old.engineID
        engineBoots := old.engineBoots
        faults := old.faults })
    | _, _ => .error (.noDevice d.id)

/-- The devices other than the one at a position. -/
def others (s : Service σ φ) : Option Nat → List (Simulated σ φ)
  | none => s.devices
  | some i => s.devices.eraseIdx i

/-- Everything `SimulatorSaveDevice` checks before it keeps anything. -/
def admitted (s : Service σ φ) (d : Simulated σ φ) (draw : Draw) :
    Except Refusal (Option Nat × Simulated σ φ) :=
  if !s.store then .error .noStore
  else
    match s.identified rules (trimmed d draw) draw with
    | .error err => .error err
    | .ok (i, d) =>
        match rules.validate d with
        | some err => .error (.invalid err)
        | none =>
            match (s.others i).find? fun other => other.listen == d.listen with
            | some other => .error (.answersThere other.name d.listen)
            | none => .ok (i, d)

/-- The list with a device that was saved. -/
def saved (s : Service σ φ) (d : Simulated σ φ) : Option Nat → List (Simulated σ φ)
  | none => s.devices ++ [d.withoutSecrets]
  | some i => s.devices.set i d.withoutSecrets

/-- `SimulatorSaveDevice`. -/
def saveDevice (s : Service σ φ) (d : Simulated σ φ) (draw : Draw) (writes : Bool)
    (restart : Start) : Service σ φ × Outcome :=
  match s.admitted rules d draw with
  | .error err => (s, { error := some err })
  | .ok (i, d) =>
      if !draw.sets then (s, { error := some .credentials })
      else
        let t := s.keep d.id (some d.secrets)
        if !writes then
          (if i.isNone && draw.deletes then t.keep d.id none else t, { error := some .file })
        else
          let t := t.written (s.saved d i)
          if !t.running d.id then (t, { written := true })
          else
            let (u, started) := startSimulatedLocked rules (t.runs d.id false)
              (i.getD s.devices.length) restart
            (u, { started with written := true })

/-- `SimulatorDeleteDevice`. -/
def deleteDevice (s : Service σ φ) (id : Octets) (writes deletes : Bool) : Service σ φ × Outcome :=
  match s.index id with
  | none => (s, {})
  | some i =>
      let t := s.runs id false
      if !writes then (t, { error := some .file })
      else
        let t := t.written (s.devices.eraseIdx i)
        (if s.store && deletes then t.keep id none else t, { written := true })

/-- `SimulatorSetFaults`. -/
def setFaults (s : Service σ φ) (id : Octets) (faults : φ) (writes sets : Bool) :
    Service σ φ × Outcome :=
  if !rules.checkFaults faults then (s, { error := some .faults })
  else
    match s.index id with
    | none => (s, { error := some (.noDevice id) })
    | some i =>
        if !writes then (s, { error := some .file })
        else
          (s.written (s.devices.modify i fun d => { d with faults }),
            { error := if s.running id && !sets then some .faults else none, written := true })

def clipText (s : Octets) (n : Nat) : Octets :=
  let r := runes s.length s
  if n < r.length then (r.take (n - 1)).flatMap String.utf8EncodeChar ++ octets "…" else s

/-- A device at the address that is suggested. -/
def moved (taken : List Octets) (draw : Draw) (d : Simulated σ φ) : Simulated σ φ :=
  let at_ := suggestAddress rules.windows taken draw.free
  { d with address := at_.1, port := at_.2 }

/-- The copy `SimulatorDuplicateDevice` makes, where it may. -/
def copied (s : Service σ φ) (id name : Octets) (draw : Draw) (gets : Bool) :
    Except Refusal (Simulated σ φ) :=
  if !s.store then .error .noStore
  else if !gets then .error .credentials
  else
    match s.devices.find? fun d => d.id == id with
    | none => .error (.noDevice id)
    | some old =>
        match rules.newEngineID old.model draw.id with
        | none => .error .noEngineID
        | some engineID =>
            let d := moved rules (s.devices.map Device.listen) draw
              { old.withSecrets (s.simulatorSecrets id) with
                name := clipText (trimSpace name) maxDeviceName
                id := draw.id
                engineID
                engineBoots := 0 }
            match rules.validate d, rules.validate d.withStandIns with
            | some err, some _ => .error (.invalid err)
            | _, _ => .ok d

/-- `SimulatorDuplicateDevice`. -/
def duplicateDevice (s : Service σ φ) (id name : Octets) (draw : Draw) (gets writes : Bool) :
    Service σ φ × Outcome :=
  match s.copied rules id name draw gets with
  | .error err => (s, { error := some err })
  | .ok d =>
      if !draw.sets then (s, { error := some .credentials })
      else
        let t := s.keep d.id (some d.secrets)
        if !writes then (if draw.deletes then t.keep d.id none else t, { error := some .file })
        else (t.written (s.devices ++ [d.withoutSecrets]), { written := true })

/-- What the loop of `importDevices` has made so far. -/
structure Importing (σ φ : Type) where
  next : List (Simulated σ φ)
  creds : Octets → Option DeviceSecrets
  /-- The IDs in `stored`, each with whether its credentials could be deleted again. -/
  stored : List (Octets × Bool) := []
  refusals : List Refusal := []

/-- A device of a file, as a new device of this machine. -/
def renewed (withSecrets : Bool) (d : Simulated σ φ) (draw : Draw) (engineID : Octets) :
    Simulated σ φ :=
  let d := if withSecrets then d else d.withoutSecrets
  { d with
    id := draw.id
    engineID
    engineBoots := 0
    traps := { d.traps with
      destinations := d.traps.destinations.mapIdx fun i dest =>
        { dest with id := if dest.id = [] then draw.destinationID i else dest.id } } }

/-- A device of a file, as it would be listed. `taken` holds where the devices of `next` answer. -/
def placed (withSecrets : Bool) (next : List (Simulated σ φ)) (d : Simulated σ φ) (draw : Draw) :
    Except Refusal (Simulated σ φ) :=
  match rules.newEngineID d.model draw.id with
  | none => .error .noEngineID
  | some engineID =>
      let d := renewed withSecrets d draw engineID
      let taken := next.map Device.listen
      let d := if taken.contains d.listen then moved rules taken draw d else d
      match rules.validate (if withSecrets then d else d.withStandIns) with
      | some err => .error (.invalid err)
      | none => .ok d

/-- One turn of the loop. -/
def importOne (withSecrets : Bool) (acc : Importing σ φ) (d : Simulated σ φ) (draw : Draw) :
    Importing σ φ :=
  match placed rules withSecrets acc.next d draw with
  | .error err => { acc with refusals := acc.refusals ++ [err] }
  | .ok d =>
      if !withSecrets then { acc with next := acc.next ++ [d.withoutSecrets] }
      else if !draw.sets then { acc with refusals := acc.refusals ++ [.credentials] }
      else { acc with
        next := acc.next ++ [d.withoutSecrets]
        creds := fun other => if other = d.id then some d.secrets else acc.creds other
        stored := acc.stored ++ [(d.id, draw.deletes)] }

def importLoop (withSecrets : Bool) (acc : Importing σ φ) :
    List (Simulated σ φ × Draw) → Importing σ φ
  | [] => acc
  | (d, draw) :: rest => importLoop withSecrets (importOne rules withSecrets acc d draw) rest

/-- The credentials that were stored are deleted again. -/
def forget (creds : Octets → Option DeviceSecrets) (stored : List (Octets × Bool)) :
    Octets → Option DeviceSecrets :=
  fun id => if (id, true) ∈ stored then none else creds id

/-- `importDevices`, of a file that could be read. -/
def importDevices (s : Service σ φ) (withSecrets : Bool) (devices : List (Simulated σ φ × Draw))
    (writes : Bool) : Service σ φ × Outcome :=
  if !s.store then (s, { error := some .noStore })
  else
    let done := importLoop rules withSecrets { next := s.devices, creds := s.creds } devices
    if done.next.length = s.devices.length then
      ({ s with creds := done.creds }, { error := done.refusals.head? })
    else if !writes then
      ({ s with creds := forget done.creds done.stored }, { error := some .file })
    else
      ({ s.written done.next with creds := done.creds },
        { error := done.refusals.head?, written := true })

/-- A call, and what the machine answers to it. -/
def perform (s : Service σ φ) : Op σ φ → Service σ φ × Outcome
  | .save d draw writes restart => s.saveDevice rules d draw writes restart
  | .delete id writes deletes => s.deleteDevice id writes deletes
  | .duplicate id name draw gets writes => s.duplicateDevice rules id name draw gets writes
  | .setFaults id faults writes sets => s.setFaults rules id faults writes sets
  | .importDevices withSecrets devices writes => s.importDevices rules withSecrets devices writes
  | .start id start =>
      match s.index id with
      | none => (s, { error := some (.noDevice id) })
      | some i => s.startSimulatedLocked rules i start
  | .stop id => (s.runs id false, {})
  | .restart reads opens =>
      ({ s with
        devices := if reads then s.file.map Device.withoutSecrets else []
        store := opens
        running := fun _ => false }, {})


end Service

end SnmpLens.Simulator
