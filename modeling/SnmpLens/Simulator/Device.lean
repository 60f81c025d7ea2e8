import Mathlib.Algebra.Group.Int.Defs
import Mathlib.Algebra.Group.Nat.Defs
import SnmpLens.Lib.Hex
import SnmpLens.Simulator.Made
import SnmpLens.Simulator.Set

/-!
# A device, as it is configured and as it starts

`pkg/simulator/device.go`, `overrides.go`, `agentobjects.go`. A device is a model built
for it, with values of its own in place of the model's or beside them. `Validate` makes
a tree of these; what starts makes one of these and of the objects only the agent can
answer. The two are compared here.
-/

namespace SnmpLens.Simulator

open Utf8 Strings Prefix

variable {κ : Type}

/-! ## Values of a device's own -/

def maxOverrides : Nat := 64

def maxCustomValue : Nat := 4096

/-- `customTypes`: an SMI type by the name the SMI gives it. -/
def customTypes : List (Octets × Asn1BER) :=
  [(octets "Integer32", .integer), (octets "Integer", .integer),
    (octets "OctetString", .octetString), (octets "ObjectIdentifier", .objectIdentifier),
    (octets "IpAddress", .ipAddress), (octets "Counter32", .counter32),
    (octets "Gauge32", .gauge32), (octets "Unsigned32", .gauge32),
    (octets "TimeTicks", .timeTicks), (octets "Counter64", .counter64),
    (octets "Opaque", .opaque_)]

/-- `strconv.ParseInt` in base 10 and 32 bits. -/
def parseInt32 (s : Octets) : Option Int :=
  match s with
  | 45 :: rest => (parseUint 32 rest).bind fun n => if n ≤ 2 ^ 31 then some (-n) else none
  | 43 :: rest => (parseUint 32 rest).bind fun n => if n < 2 ^ 31 then some n else none
  | _ => (parseUint 32 s).bind fun n => if n < 2 ^ 31 then some n else none

def numberOf (t : Asn1BER) (s : Octets) : Option Value :=
  match t with
  | .integer => (parseInt32 s).map .int
  | .counter64 => (parseUint 64 s).map .uint64
  | _ => (parseUint 32 s).map .uint32

structure Override where
  oid : Octets
  type : Octets
  value : Octets
  hex : Bool
deriving DecidableEq, Repr

/-- What there is to object to in a value of a device's own. -/
inductive OverrideError where
  | oid (err : OidError)
  | agentsOwn (id : Oid)
  | notAType (id : Oid) (type : Octets)
  | tooLong (id : Oid)
  | hexIsForOctets (id : Oid)
  | notHex (id : Oid) (value : Octets)
  | notANumber (id : Oid)
  | value (id : Oid)
  | tooMany
  | givenTwice (name : Octets)
deriving DecidableEq, Repr

namespace Override

/-- The value of an override of type `t`. -/
def valueOf (o : Override) (id : Oid) (t : Asn1BER) : Except OverrideError Value :=
  if o.hex then
    if t ≠ .octetString ∧ t ≠ .opaque_ then .error (.hexIsForOctets id)
    else
      match Hex.decode (o.value.filter fun b => b ≠ 58 && b ≠ 32) with
      | none => .error (.notHex id o.value)
      | some b => .ok (.bytes b)
  else
    match t with
    | .integer | .counter32 | .gauge32 | .timeTicks | .counter64 =>
        match numberOf t (trimSpace o.value) with
        | none => .error (.notANumber id)
        | some v => .ok v
    | .objectIdentifier | .ipAddress => .ok (.str (trimSpace o.value))
    | _ => .ok (.str o.value)

def object (κ : Type) (o : Override) : Except OverrideError (Object κ) :=
  match parseOID o.oid with
  | .error err => .error (.oid err)
  | .ok id =>
      if agentSubtrees.any id.hasPrefix then .error (.agentsOwn id)
      else
        match customTypes.lookup o.type with
        | none => .error (.notAType id o.type)
        | some t =>
            if maxCustomValue < o.value.length then .error (.tooLong id)
            else
              match o.valueOf id t with
              | .error err => .error err
              | .ok v =>
                  if checkValue t v then
                    .ok { oid := id.string, type := t, value := some (const κ v) }
                  else .error (.value id)

end Override

/-- The loop of `compileOverrides`. -/
def compileLoop (out : List (Object κ)) : List Override → Except OverrideError (List (Object κ))
  | [] => .ok out
  | o :: rest =>
      match o.object κ with
      | .error err => .error err
      | .ok obj =>
          if out.any fun x => x.oid == obj.oid then .error (.givenTwice obj.oid)
          else compileLoop (out ++ [obj]) rest

def compileOverrides (κ : Type) (ovs : List Override) : Except OverrideError (List (Object κ)) :=
  if maxOverrides < ovs.length then .error .tooMany else compileLoop [] ovs

/-- `at`: where the last object of that name is. -/
def lastAt (objs : List (Object κ)) (name : Octets) : Option Nat :=
  (objs.zipIdx.reverse.find? fun p =>
    match parseOID p.1.oid with
    | .ok id => id.string == name
    | .error _ => false).map Prod.snd

/-- The loop of `withOverrides`: each in place of the object at its OID, or behind them all. -/
def overlay (objs : List (Object κ)) (out : List (Object κ)) : List (Object κ) → List (Object κ)
  | [] => out
  | ov :: rest =>
      match lastAt objs ov.oid with
      | some i =>
          overlay objs (out.modify i fun o => { ov with notifyOnly := o.notifyOnly }) rest
      | none => overlay objs (out ++ [ov]) rest

def withOverrides (objs ovs : List (Object κ)) : List (Object κ) := overlay objs objs ovs

/-! ## The agent's own objects -/

def maxMessage : Int := 65507

/-- `statistic`: one of the agent's own counters, as it is at the moment. -/
def statistic (count : κ → Nat) : Reading κ where
  read := fun c => .uint32 (count c)
  check := fun t => t == .counter32

def engineSeconds (seconds : κ → Int) : Reading κ where
  read := fun c => .int (seconds c)
  check := fun t => t == .integer

/-- What an agent counts, by the OID it is asked for, and how long it has been up. -/
structure Statistics (κ : Type) where
  count : Oid → κ → Nat
  seconds : κ → Int

/-- `snmp`, the group of SNMPv2-MIB. -/
def snmpGroup : Oid := [1, 3, 6, 1, 2, 1, 11]

/-- The counters of the `snmp` group in front of snmpEnableAuthenTraps. -/
def snmpCounters : List Nat :=
  [1, 2, 3, 4, 5, 6, 8, 9, 10, 11, 12, 13, 14, 15, 16, 17, 18, 19, 20, 21, 22, 24, 25, 26, 27, 28, 29]

/-- The counters a Report names, and the two of the MPD. -/
def reportCounters : List Oid :=
  [[1, 3, 6, 1, 6, 3, 11, 2, 1, 1, 0], [1, 3, 6, 1, 6, 3, 11, 2, 1, 2, 0],
    [1, 3, 6, 1, 6, 3, 11, 2, 1, 3, 0], [1, 3, 6, 1, 6, 3, 12, 1, 5, 0],
    [1, 3, 6, 1, 6, 3, 15, 1, 1, 1, 0], [1, 3, 6, 1, 6, 3, 15, 1, 1, 2, 0],
    [1, 3, 6, 1, 6, 3, 15, 1, 1, 3, 0], [1, 3, 6, 1, 6, 3, 15, 1, 1, 4, 0],
    [1, 3, 6, 1, 6, 3, 15, 1, 1, 5, 0], [1, 3, 6, 1, 6, 3, 15, 1, 1, 6, 0]]

def engineObjects (stats : Statistics κ) (engineID : Octets) (boots : Nat) : List (Object κ) :=
  [{ oid := dotted [1, 3, 6, 1, 6, 3, 10, 2, 1, 1, 0]
     type := .octetString
     value := some (const κ (.bytes engineID)) },
    { oid := dotted [1, 3, 6, 1, 6, 3, 10, 2, 1, 2, 0]
      type := .integer
      value := some (const κ (.int boots)) },
    { oid := dotted [1, 3, 6, 1, 6, 3, 10, 2, 1, 3, 0]
      type := .integer
      value := some (engineSeconds stats.seconds) },
    { oid := dotted [1, 3, 6, 1, 6, 3, 10, 2, 1, 4, 0]
      type := .integer
      value := some (const κ (.int maxMessage)) }]

/-- One of the agent's counters as an object. -/
def counted (stats : Statistics κ) (name : Octets) (id : Oid) : Object κ where
  oid := name
  type := .counter32
  value := some (statistic (stats.count id))

def agentObjects (stats : Statistics κ) (v3 : Bool) (engineID : Octets) (boots : Nat)
    (authenTraps : Bool) : List (Object κ) :=
  let enable : Object κ :=
    { oid := dotted (snmpGroup ++ [30, 0])
      type := .integer
      value := some (const κ (.int (if authenTraps then 1 else 2))) }
  let snmp (n : Nat) : Object κ := counted stats (dotted (snmpGroup ++ [n, 0])) (snmpGroup ++ [n, 0])
  let out := snmpCounters.map snmp ++ [enable, snmp 31, snmp 32]
  if !v3 then out
  else
    out ++ engineObjects stats engineID boots ++
      reportCounters.map (fun id => counted stats id.string id) ++
      -- snmpUnavailableContexts
      [counted stats (Oid.string [1, 3, 6, 1, 6, 3, 12, 1, 4, 0]) [1, 3, 6, 1, 6, 3, 12, 1, 4, 0]]

/-! ## A device -/

structure ModelParam where
  name : Octets
  min : Int
  max : Int
deriving DecidableEq, Repr

/-- `Identity`: what makes one device differ from another of the same model. -/
structure Identity where
  name : Octets
  seed : Nat
  location : Octets
  contact : Octets
  /-- By name, and the names in order. -/
  params : List (Octets × Int)
deriving DecidableEq, Repr

/-- `model`, as far as a device is built from it. -/
structure Model (κ : Type) where
  id : Octets
  params : List ModelParam
  build : Identity → List (Object κ)

def Model.checkParams (m : Model κ) (params : List (Octets × Int)) : Bool :=
  params.all fun (name, n) =>
    match m.params.find? fun p => p.name == name with
    | none => false
    | some p => p.min ≤ n && n ≤ p.max

/-- `Device`, with its users, its traps and its faults as they are written elsewhere. -/
structure Device (υ τ φ : Type) where
  id : Octets
  name : Octets
  model : Octets
  address : Octets
  port : Int
  versions : List Octets
  community : Octets
  writeCommunity : Octets
  users : List υ
  /-- In hex. -/
  engineID : Octets
  /-- A `uint32`. -/
  engineBoots : Nat
  traps : τ
  location : Octets
  contact : Octets
  faults : φ
  params : List (Octets × Int)
  overrides : List Override
  autoStart : Bool := false

/-- What `Validate` asks of other parts of the program. -/
structure Checks (υ τ φ : Type) where
  /-- `CheckListen`. -/
  listen : Octets → Bool
  /-- `checkUser`. -/
  user : υ → Bool
  userName : υ → Octets
  /-- `Traps.check`, against the users there are and what a model of that ID can send. -/
  traps : τ → List υ → Octets → Bool
  /-- `Faults.Check`. -/
  faults : φ → Bool

/-- What there is to object to in a device. -/
inductive DeviceError where
  | name
  | notAModel (model : Octets)
  | notAPort (port : Int)
  | listen
  | notAVersion (version : Octets)
  | noVersion
  | community
  | writeCommunityVersion
  | writeCommunityLength
  | writeCommunityIsRead
  | noUser
  | user
  | userTwice (name : Octets)
  | traps
  | locationOrContact
  | faults
  | params
  | overrides (err : OverrideError)
  | tree (err : TreeError)
  | engineID
  | boots
deriving DecidableEq, Repr

def maxDeviceName : Nat := 64

def maxCommunity : Nat := 127

def maxBoots : Nat := 2147483647

/-- `utf8.RuneCountInString`. -/
def runeCount (s : Octets) : Nat := (runes s.length s).length

/-- `net.JoinHostPort`. -/
def joinHostPort (host : Octets) (port : Nat) : Octets :=
  if host.contains 58 then 91 :: host ++ 93 :: 58 :: formatUint port
  else host ++ 58 :: formatUint port

namespace Device

variable {υ τ φ : Type}

def listen (d : Device υ τ φ) : Octets := joinHostPort (trimSpace d.address) d.port.toNat

/-- `identity`, with `deviceSeed` as it hashes the device's ID. -/
def identity (seed : Octets → Nat) (d : Device υ τ φ) : Identity where
  name := trimSpace d.name
  seed := seed d.id
  location := trimSpace d.location
  contact := trimSpace d.contact
  params := d.params

def findModel (models : List (Model κ)) (id : Octets) : Option (Model κ) :=
  models.find? fun m => m.id == id

def objects (models : List (Model κ)) (seed : Octets → Nat) (d : Device υ τ φ) :
    Except DeviceError (List (Object κ)) :=
  match findModel models d.model with
  | none => .error (.notAModel d.model)
  | some m =>
      if !m.checkParams d.params then .error .params
      else
        match compileOverrides κ d.overrides with
        | .error err => .error (.overrides err)
        | .ok own => .ok (withOverrides (m.build (d.identity seed)) own)

/-- Whether a device answers the version of that name. -/
def answers (d : Device υ τ φ) (version : String) : Bool := d.versions.contains (octets version)

/-- The loop over the versions. -/
def checkVersions : List Octets → Option DeviceError
  | [] => none
  | v :: rest =>
      if v = octets "v1" ∨ v = octets "v2c" ∨ v = octets "v3" then checkVersions rest
      else some (.notAVersion v)

/-- The loop over the users. -/
def checkUsers (checks : Checks υ τ φ) (seen : List Octets) : List υ → Option DeviceError
  | [] => none
  | u :: rest =>
      if !checks.user u then some .user
      else if seen.contains (checks.userName u) then some (.userTwice (checks.userName u))
      else checkUsers checks (checks.userName u :: seen) rest

/-- What a device's communities are held to. -/
def checkCommunities (d : Device υ τ φ) : Option DeviceError :=
  let community := d.answers "v1" || d.answers "v2c"
  if community && (d.community.isEmpty || maxCommunity < d.community.length) then some .community
  else if d.writeCommunity.isEmpty then none
  else if !community then some .writeCommunityVersion
  else if maxCommunity < d.writeCommunity.length then some .writeCommunityLength
  else if d.writeCommunity = d.community then some .writeCommunityIsRead
  else none

/-- What a device's values of its own are held to: that they make a tree with its model's. -/
def checkObjects (models : List (Model κ)) (seed : Octets → Nat) (d : Device υ τ φ) :
    Option DeviceError :=
  if d.overrides.isEmpty then none
  else
    match d.objects models seed with
    | .error err => some err
    | .ok objs =>
        match Tree.newTree objs with
        | .error err => some (.tree err)
        | .ok _ => none

/-- What a device's engine is held to. -/
def checkEngine (d : Device υ τ φ) : Option DeviceError :=
  match Hex.decode d.engineID with
  | none => some .engineID
  | some id =>
      if id.length < 5 ∨ 32 < id.length then some .engineID
      else if maxBoots ≤ d.engineBoots then some .boots
      else none

/-- `Validate`: the first thing wrong with a device. -/
def validate (models : List (Model κ)) (seed : Octets → Nat) (checks : Checks υ τ φ)
    (d : Device υ τ φ) : Option DeviceError :=
  let name := trimSpace d.name
  if name.isEmpty ∨ maxDeviceName < runeCount name then some .name
  else
    match findModel models d.model with
    | none => some (.notAModel d.model)
    | some m =>
        if d.port < 1 ∨ 65535 < d.port then some (.notAPort d.port)
        else if !checks.listen d.listen then some .listen
        else
          (checkVersions d.versions).or <|
          (if !d.answers "v1" && !d.answers "v2c" && !d.answers "v3" then some .noVersion
            else none).or <|
          d.checkCommunities.or <|
          (if !d.answers "v3" then none
            else if d.users.isEmpty then some .noUser
            else checkUsers checks [] d.users).or <|
          (if !checks.traps d.traps (if d.answers "v3" then d.users else []) m.id then some .traps
            else none).or <|
          (if 255 < d.location.length ∨ 255 < d.contact.length then some .locationOrContact
            else none).or <|
          (if !checks.faults d.faults then some .faults else none).or <|
          (if !m.checkParams d.params then some .params else none).or <|
          (d.checkObjects models seed).or
          d.checkEngine

/-- What the agent of a device makes its tree of, where it makes one. -/
def served (models : List (Model κ)) (seed : Octets → Nat) (stats : Statistics κ)
    (authenTraps : Bool) (d : Device υ τ φ) : Except DeviceError (List (Object κ)) :=
  match Hex.decode d.engineID with
  | none => .error .engineID
  | some engineID =>
      match d.objects models seed with
      | .error err => .error err
      | .ok objs =>
          .ok (objs ++ agentObjects stats (d.answers "v3") engineID (max d.engineBoots 1) authenTraps)

end Device

end SnmpLens.Simulator
