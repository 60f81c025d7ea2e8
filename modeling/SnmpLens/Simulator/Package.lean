import SnmpLens.Simulator.Custom
import SnmpLens.Simulator.Starts
import SnmpLens.Simulator.Walk

/-!
# A package: a model spread over files, and what a device of the kind answered

`pkg/simulator/package.go`, and `compile` of `custom.go`. Three rules put the files
together. What is written wins over what was recorded, OID by OID. The agent's own
objects are the agent's, and no walk serves them. The system group is made, never
replayed. And where `model.json` says "interfaces", the whole of a walk's IF-MIB gives way.

The files come told apart by their names and decoded, in the order of their names.
-/

namespace SnmpLens.Simulator

open Utf8 Strings

variable {φ κ : Type}

/-! ## The parts -/

/-- `PackageFile`, by its role. -/
inductive PackageFile (φ : Type) where
  | model (f : CustomFile φ)
  | traps (list : List CustomNotification)
  | oids (list : List (CustomObject φ))
  | walk (data : Octets)

/-- `recordedUptime`, in hundredths of a second. -/
def recordedUptime : Nat := 30 * 86400 * 100

structure PackageParts (φ : Type) where
  objects : List (List (CustomObject φ)) := []
  notifications : List (List CustomNotification) := []
  walks : Nat := 0
  recorded : List WalkEntry := []
  system : CustomSystem := {}
  /-- In hundredths of a second. -/
  uptime : Nat := 0

/-- Why a package is refused. -/
inductive PackageError where
  | twoModels
  | walk (err : WalkError)
  | nothingRead
  | recordsNothing
  | tooManyRecorded
  | noModel
  | model (err : CustomError)
deriving DecidableEq, Repr

/-- What the walks recorded between them: the first file to record an OID gives its value. -/
def join (recorded entries : List WalkEntry) : List WalkEntry :=
  entries.foldl (fun out e => if out.any fun x => x.name == e.name then out else out ++ [e]) recorded

/-- One file of the loop of `ParseCustomPackage`. -/
def readFile (letter : Char → Bool) (model : Option (CustomFile φ)) (parts : PackageParts φ) :
    PackageFile φ → Except PackageError (Option (CustomFile φ) × PackageParts φ)
  | .model f => if model.isSome then .error .twoModels else .ok (some f, parts)
  | .traps list => .ok (model, { parts with notifications := parts.notifications ++ [list] })
  | .oids list => .ok (model, { parts with objects := parts.objects ++ [list] })
  | .walk data =>
      match readWalk letter data with
      | .error err => .error (.walk err)
      | .ok w =>
          if w.entries.isEmpty then
            if 0 < w.skipped then .error .nothingRead else .error .recordsNothing
          else
            let recorded := join parts.recorded w.entries
            if maxRecordedObjects < recorded.length then .error .tooManyRecorded
            else .ok (model, { parts with recorded, walks := parts.walks + 1 })

/-- The loop of `ParseCustomPackage`. -/
def readFiles (letter : Char → Bool) (model : Option (CustomFile φ)) (parts : PackageParts φ) :
    List (PackageFile φ) → Except PackageError (Option (CustomFile φ) × PackageParts φ)
  | [] => .ok (model, parts)
  | file :: rest =>
      match readFile letter model parts file with
      | .error err => .error err
      | .ok (model, parts) => readFiles letter model parts rest

/-! ## What is left out -/

def oidSysGroup : Oid := [1, 3, 6, 1, 2, 1, 1]

def oidHRSystemUptime : Oid := [1, 3, 6, 1, 2, 1, 25, 1, 1, 0]

def oidHRSystemDate : Oid := [1, 3, 6, 1, 2, 1, 25, 1, 2, 0]

def ifMIBSubtrees : List Oid := [[1, 3, 6, 1, 2, 1, 2], [1, 3, 6, 1, 2, 1, 31, 1]]

/-- Whether an OID lies in one of some subtrees. -/
def below (subtrees : List Oid) (o : Oid) : Bool := subtrees.any o.hasPrefix

/-- Which of the system group's seven scalars an OID is. -/
def systemScalar (o : Oid) : Option Nat :=
  if o.length = oidSysGroup.length + 2 ∧ o.hasPrefix oidSysGroup ∧ o.getLast? = some 0 then
    (o[oidSysGroup.length]?).filter fun n => 1 ≤ n && n ≤ 7
  else none

/-- `set` of a recorded system group. sysName is not kept. -/
def CustomSystem.set (s : CustomSystem) (n : Nat) (e : WalkEntry) : CustomSystem :=
  let text :=
    match e.val with
    | .str t => t
    | .bytes b => b
    | _ => []
  match n with
  | 1 => { s with descr := text }
  | 2 => if e.typ = .objectIdentifier then { s with objectID := text } else s
  | 4 => { s with contact := text }
  | 6 => { s with location := text }
  | 7 =>
      match e.val with
      | .int v => { s with services := some v }
      | _ => s
  | _ => s

/-- What `settle` has made so far. -/
structure Settled where
  kept : List WalkEntry := []
  system : CustomSystem := {}
  sysUp : Nat := 0
  hrUp : Nat := 0
  agentOwned : Nat := 0

/-- The loop of `settle`. -/
def settleFrom (s : Settled) : List WalkEntry → Settled
  | [] => s
  | e :: rest =>
      let ticks (n : Nat) : Nat :=
        match e.val with
        | .uint32 t => t
        | _ => n
      if below agentSubtrees e.oid then settleFrom { s with agentOwned := s.agentOwned + 1 } rest
      else
        match systemScalar e.oid with
        | some 3 => settleFrom { s with sysUp := ticks s.sysUp } rest
        | some n => settleFrom { s with system := s.system.set n e } rest
        | none =>
            let hrUp := if e.oid = oidHRSystemUptime then ticks s.hrUp else s.hrUp
            settleFrom { s with hrUp, kept := s.kept ++ [e] } rest

def PackageParts.settle (p : PackageParts φ) : PackageParts φ :=
  let s := settleFrom { system := p.system } p.recorded
  let uptime := if 0 < s.sysUp then s.sysUp else if 0 < s.hrUp then s.hrUp else recordedUptime
  { p with recorded := s.kept, system := s.system, uptime := max uptime 6000 }

def CustomFile.systemOf (f : CustomFile φ) (p : PackageParts φ) : Except CustomError SystemGroup :=
  if p.walks = 0 then
    match f.system with
    | none => .error .noSystem
    | some s => s.check
  else
    let or_ (s t : Octets) : Octets := if s.isEmpty then t else s
    let s := p.system
    let s : CustomSystem :=
      match f.system with
      | none => s
      | some g =>
          { descr := or_ g.descr s.descr
            objectID := or_ g.objectID s.objectID
            contact := or_ g.contact s.contact
            location := or_ g.location s.location
            services := g.services.or s.services }
    if (trimSpace s.descr).isEmpty then .error .noDescr
    else if s.objectID.isEmpty then .error .noObjectID
    else s.check

/-- The OIDs of objects that are written, as entries are named. -/
def madeNames (written : List (Object κ)) : List Octets :=
  written.filterMap fun o => (parseOID o.oid).toOption.map Oid.string

def PackageParts.unwritten (p : PackageParts φ) (written : List (Object κ)) (interfaces : Bool) :
    List WalkEntry :=
  p.recorded.filter fun e =>
    !((madeNames written).contains e.name || (interfaces && below ifMIBSubtrees e.oid))

/-! ## The model -/

/-- The reading of what was recorded `i`-th. A recorded counter moves. -/
def recordedReading (fl : Floats φ κ) (seed uptime i : Nat) (e : WalkEntry) : Reading κ :=
  let start :=
    match e.val with
    | .uint32 n => n
    | .uint64 n => n
    | _ => 0
  let moving (wide : Bool) : Reading κ :=
    (fl.recordedCounter wide start uptime).at_ ((seed + 2 ^ 22 + i) % 2 ^ 64)
  if e.typ = .counter32 then moving false
  else if e.typ = .counter64 then moving true
  else if e.typ = .timeTicks ∧ e.oid = oidHRSystemUptime then fl.uptime
  else if e.typ = .octetString ∧ e.oid = oidHRSystemDate then fl.dateAndTime
  else const κ e.val

/-- What `appendRecorded` adds. -/
def recordedObjects (fl : Floats φ κ) (id : Identity) (entries : List WalkEntry) (uptime : Nat) :
    List (Object κ) :=
  entries.zipIdx.map fun (e, i) =>
    { oid := e.name, type := e.typ, value := some (recordedReading fl id.seed uptime i e) }

/-- `CustomModel`, with what its `build` holds on to. -/
structure CustomModel (φ κ : Type) where
  id : Octets
  category : Octets
  name : Octets
  description : Octets
  vendor : Octets
  enterprise : Nat
  icon : Octets
  notifications : List Notification
  sys : SystemGroup
  ifs : List (Iface φ)
  objs : List (CompiledObject κ)
  recorded : List WalkEntry
  uptime : Nat

namespace CustomModel

/-- What the model's own files make for one device. -/
def written (fl : Floats φ κ) (c : CustomModel φ κ) (id : Identity) : List (Object κ) :=
  buildCustom fl id c.sys c.ifs c.objs

def build (fl : Floats φ κ) (c : CustomModel φ κ) (id : Identity) : List (Object κ) :=
  c.written fl id ++ recordedObjects fl id c.recorded c.uptime

/-- The model of the catalogue. -/
def model (fl : Floats φ κ) (c : CustomModel φ κ) : Model κ where
  id := c.id
  params := []
  build := c.build fl

end CustomModel

def customIDPattern (s : Octets) : Bool :=
  let alnum (b : UInt8) : Bool := (97 ≤ b && b ≤ 122) || isDigit b
  s.length ≤ 48 && s.head?.any alnum && s.getLast?.any alnum && s.all fun b => alnum b || b == 45

def customCategories : List Octets :=
  ["server", "network", "security", "wireless", "storage", "power", "printing", "environment",
    "other"].map octets

/-- Whether an icon's name is one in the archive. What has no slash is its own base. -/
def iconOk (icon : Octets) : Bool :=
  icon.isEmpty ||
    (!(icon.any fun b => b == 47 || b == 92 || b == 58) && icon.head? != some 46 && icon.length ≤ 128)

/-- The device a model is built for once, to be checked. -/
def modelCheck : Identity where
  name := octets "model-check"
  seed := 1
  location := []
  contact := []
  params := []

/-- `notification` of a tree. -/
def Tree.notification (t : Tree κ) (o : Oid) : Option (Entry κ) :=
  (t.get o).or (t.notifyOnly.lookup o.string)

/-- An object a notification carries, which the model does not answer. -/
def notAnswered (t : Tree κ) (notes : List Notification) : Option Octets :=
  (notes.flatMap Notification.objects).find? fun name =>
    (t.notification ((parseOID name).toOption.getD [])).isNone

/-- What `compile` asks of the fields of a model file that no device answers. -/
def CustomFile.checkFields (f : CustomFile φ) : Option CustomError :=
  let name := trimSpace f.name
  let category := if f.category.isEmpty then octets "other" else f.category
  if !customIDPattern f.id then some .id
  else if name.isEmpty ∨ maxDeviceName < runeCount name then some .name
  else if 600 < runeCount f.description then some .description
  else if maxDeviceName < runeCount f.vendor then some .vendor
  else if !customCategories.contains category then some .category
  else if !iconOk (trimSpace f.icon) then some .icon
  else none

/-- `compile`, as far as the model is made. -/
def CustomFile.model (fl : Floats φ κ) (f : CustomFile φ) (parts : PackageParts φ) :
    Except CustomError (CustomModel φ κ) := do
  let sys ← f.systemOf parts
  let enterprise ← f.enterpriseNumber sys.objectID
  let ifs ← checkInterfaces fl f.interfaces
  let objs ← compileObjects fl (f.objects :: parts.objects)
  let notifications ← checkNotifications (f.notifications :: parts.notifications)
  return {
    id := octets "custom:" ++ f.id
    category := if f.category.isEmpty then octets "other" else f.category
    name := trimSpace f.name
    description := trimSpace f.description
    vendor := trimSpace f.vendor
    enterprise, icon := trimSpace f.icon, notifications, sys, ifs, objs
    recorded := parts.unwritten (buildCustom fl modelCheck sys ifs objs) (!ifs.isEmpty)
    uptime := parts.uptime }

def CustomFile.compile (fl : Floats φ κ) (stats : Statistics κ) (f : CustomFile φ)
    (parts : PackageParts φ) : Except CustomError (CustomModel φ κ) :=
  match f.checkFields with
  | some err => .error err
  | none => do
      let c ← f.model fl parts
      -- built once, as a device answering v3 will be, with what the agent adds
      match Tree.newTree (c.build fl modelCheck ++
          agentObjects stats true [0x80, 0, 0, 0, 0] 1 false) with
      | .error err => .error (.tree err)
      | .ok t =>
          match notAnswered t c.notifications with
          | some name => .error (.notAnswered name)
          | none => .ok c

def parseCustomPackage (letter : Char → Bool) (fl : Floats φ κ) (stats : Statistics κ)
    (files : List (PackageFile φ)) : Except PackageError (CustomModel φ κ) :=
  match readFiles letter none {} files with
  | .error err => .error err
  | .ok (none, _) => .error .noModel
  | .ok (some f, parts) =>
      match f.compile fl stats parts.settle with
      | .error err => .error (.model err)
      | .ok c => .ok c

end SnmpLens.Simulator
