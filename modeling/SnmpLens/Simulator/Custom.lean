import Mathlib.Algebra.Group.Int.Defs
import Mathlib.Algebra.GroupWithZero.Nat
import SnmpLens.Lib.Substring
import SnmpLens.Simulator.Device

/-!
# A custom model: what somebody else wrote a device answers

`pkg/simulator/custom.go`, and `model.go` and `ifaces.go` for what it builds with. A file
picks from a frozen vocabulary: a type, a behaviour, interfaces; each is checked, and the
objects made of it for one device at a time. What the values make of floating point
numbers is passed in as `Floats`; whether it can be sent as a type never depends on a
device, and `Moving` has it so.
-/

namespace SnmpLens.Simulator

open Utf8 Strings

/-- A reading that moves by the seed of the device it is made for. -/
structure Moving (κ : Type) where
  read : Nat → κ → Value
  check : Asn1BER → Bool

/-- The reading of a device. -/
def Moving.at_ {κ : Type} (m : Moving κ) (seed : Nat) : Reading κ where
  read := m.read seed
  check := m.check

/-- A constant, whatever the seed. -/
def Moving.const (κ : Type) (v : Value) : Moving κ where
  read _ _ := v
  check t := checkValue t v

/-! ## The file -/

structure CustomSystem where
  descr : Octets := []
  objectID : Octets := []
  contact : Octets := []
  location : Octets := []
  services : Option Int := none
deriving DecidableEq, Repr

structure CustomInterface (φ : Type) where
  index : Int
  descr : Octets
  name : Octets
  alias_ : Octets
  type : Int
  mtu : Int
  speedMbps : Option φ
  up : Bool
  adminDown : Bool
  inOctetsPerSec : φ
  outOctetsPerSec : φ
  errorsPerSec : φ

structure CustomGauge (φ : Type) where
  min : Option φ
  max : Option φ
  periodSec : φ

structure CustomCounter (φ : Type) where
  perSecond : Option φ
  start : Nat
  swing : φ
  periodSec : φ

/-- A JSON value, as far as `constantOf` looks at it: a number is its text. -/
inductive Given where
  | number (text : Octets)
  | str (s : Octets)
  | other
deriving DecidableEq, Repr

structure CustomObject (φ : Type) where
  oid : Octets
  type : Octets
  instances : List Octets := []
  value : Option Given := none
  hex : Option Octets := none
  uptime : Bool := false
  secondsUp : Bool := false
  gauge : Option (CustomGauge φ) := none
  counter : Option (CustomCounter φ) := none
  notifyOnly : Bool := false

structure CustomNotification where
  name : Octets
  oid : Octets
  objects : List Octets
deriving DecidableEq, Repr

/-- `customFile`, once it has been decoded. -/
structure CustomFile (φ : Type) where
  id : Octets
  name : Octets
  description : Octets := []
  vendor : Octets := []
  category : Octets := []
  enterprise : Option Int := none
  icon : Octets := []
  system : Option CustomSystem := none
  interfaces : List (CustomInterface φ) := []
  objects : List (CustomObject φ) := []
  notifications : List CustomNotification := []

structure Iface (φ : Type) where
  index : Nat
  descr : Octets
  name : Octets
  alias_ : Octets
  ifType : Int
  mtu : Int
  /-- Bits per second. -/
  speed : Nat
  mac : Octets := []
  up : Bool
  adminDown : Bool
  inRate : φ
  outRate : φ
  errorRate : φ

/-- What an interface counts. -/
inductive Counted where
  | inOctets | inUcast | inNUcast | inErrors | inUnknownProtos
  | outOctets | outUcast | outNUcast
  | inMcast | inBcast | outMcast | outBcast
deriving DecidableEq, Repr

/-- How busy an interface is: its rates, while it is up. -/
structure Traffic (φ : Type) where
  index : Nat
  active : Bool
  inRate : φ
  outRate : φ
  errorRate : φ

def Iface.traffic {φ : Type} (f : Iface φ) : Traffic φ where
  index := f.index
  active := f.up && !f.adminDown
  inRate := f.inRate
  outRate := f.outRate
  errorRate := f.errorRate

/-- What `values.go` makes of floating point numbers, and of a clock. -/
structure Floats (φ κ : Type) where
  uptime : Reading κ
  secondsUp : Reading κ
  dateAndTime : Reading κ
  /-- A rate is 0 to `maxCustomRate`. -/
  rateOk : φ → Bool
  /-- A speed in bits per second: of a number of megabits from 0 to 10000000, or of none. -/
  bits : Option φ → Option Nat
  /-- `customGauge.compile`. -/
  gauge : CustomGauge φ → Asn1BER → Option (Moving κ)
  /-- `customCounter.compile`. -/
  counter : CustomCounter φ → Asn1BER → Option (Moving κ)
  /-- A counter of an interface, in 64 bits or in 32. -/
  ifCounter : Traffic φ → Counted → Bool → Moving κ
  /-- A recorded counter, in 64 bits or in 32: where it starts, and the uptime beside it. -/
  recordedCounter : Bool → Nat → Nat → Moving κ

/-! ## The system group, and the interfaces -/

/-- What there is to object to in a model file. -/
inductive CustomError where
  | id
  | name
  | description
  | vendor
  | category
  | icon
  | noSystem
  | descr
  | objectID (err : OidError)
  | contactOrLocation
  | services
  | noDescr
  | noObjectID
  | enterprise
  | tooManyInterfaces
  | interface (i : Nat)
  | tooManyInstances (i : Nat)
  | tooManyObjects
  | object (i : Nat)
  | tooManyNotifications
  | notification (i : Nat)
  | tree (err : TreeError)
  | notAnswered (name : Octets)
deriving DecidableEq, Repr

structure SystemGroup where
  descr : Octets
  objectID : Octets
  contact : Octets
  location : Octets
  services : Int
deriving DecidableEq, Repr

/-- `check` of a system group. -/
def CustomSystem.check (s : CustomSystem) : Except CustomError SystemGroup :=
  let descr := trimSpace s.descr
  if descr.isEmpty ∨ 255 < descr.length then .error .descr
  else
    match parseOID s.objectID with
    | .error err => .error (.objectID err)
    | .ok id =>
        if 255 < s.contact.length ∨ 255 < s.location.length then .error .contactOrLocation
        else
          -- end to end and applications, as a host's agent answers
          let services := s.services.getD 72
          if services < 0 ∨ 127 < services then .error .services
          else .ok { descr, objectID := id.string, contact := s.contact, location := s.location, services }

def CustomFile.enterpriseNumber {φ : Type} (f : CustomFile φ) (sysObjectID : Octets) :
    Except CustomError Nat :=
  match f.enterprise with
  | some n => if n < 1 ∨ 2 ^ 31 ≤ n then .error .enterprise else .ok n.toNat
  | none =>
      let id := (parseOID sysObjectID).toOption.getD []
      let vendor := id.getD 6 0
      if 6 < id.length ∧ Oid.hasPrefix id [1, 3, 6, 1, 4, 1] ∧ 0 < vendor ∧ vendor < 2 ^ 31 then
        .ok vendor
      else .ok 8072

def maxCustomInterfaces : Nat := 256

/-- `math.MaxInt32`. -/
def maxInt32 : Int := 2 ^ 31 - 1

section

variable {φ κ : Type} (fl : Floats φ κ)

/-- One interface of a file, the `i`-th, as `checkInterfaces` makes it. -/
def checkInterface (seen : List Nat) (i : Nat) (c : CustomInterface φ) :
    Except CustomError (Iface φ) :=
  let index := if c.index = 0 then (i : Int) + 1 else c.index
  let descr := trimSpace c.descr
  let ifType := if c.type = 0 then 6 else c.type
  let mtu := if c.mtu = 0 then 1500 else c.mtu
  if index < 1 ∨ maxInt32 < index then .error (.interface i)
  else if seen.contains index.toNat then .error (.interface i)
  else if descr.isEmpty ∨ 255 < descr.length then .error (.interface i)
  else if 64 < c.name.length ∨ 64 < c.alias_.length then .error (.interface i)
  else if ifType < 1 ∨ maxInt32 < ifType then .error (.interface i)
  else if mtu < 0 ∨ maxInt32 < mtu then .error (.interface i)
  else
    match fl.bits c.speedMbps with
    | none => .error (.interface i)
    | some speed =>
        if !(fl.rateOk c.inOctetsPerSec && fl.rateOk c.outOctetsPerSec && fl.rateOk c.errorsPerSec) then
          .error (.interface i)
        else
          .ok { index := index.toNat, descr, name := trimSpace c.name, alias_ := c.alias_, ifType, mtu, speed
                up := c.up, adminDown := c.adminDown, inRate := c.inOctetsPerSec
                outRate := c.outOctetsPerSec, errorRate := c.errorsPerSec }

/-- The loop of `checkInterfaces`. -/
def checkInterfacesFrom (seen : List Nat) (i : Nat) :
    List (CustomInterface φ) → Except CustomError (List (Iface φ))
  | [] => .ok []
  | c :: rest => do
      let f ← checkInterface fl seen i c
      let more ← checkInterfacesFrom (f.index :: seen) (i + 1) rest
      return f :: more

def checkInterfaces (ifs : List (CustomInterface φ)) : Except CustomError (List (Iface φ)) :=
  if maxCustomInterfaces < ifs.length then .error .tooManyInterfaces
  else checkInterfacesFrom fl [] 0 ifs

/-! ## Objects -/

/-- `instancePlaceholder`. -/
def placeholder : Octets := octets "\x7b#\x7d"

/-- `instancePattern`: sub-identifiers of at most ten digits, at most 32 of them. -/
def instancePattern (s : Octets) : Bool :=
  let parts := s.splitOn 46
  parts.length ≤ 32 && parts.all fun p => !p.isEmpty && p.length ≤ 10 && p.all isDigit

/-- `compiledObject`: the OID has the placeholder, when there are instances. -/
structure CompiledObject (κ : Type) where
  oid : Octets
  typ : Asn1BER
  instances : List Octets
  notifyOnly : Bool
  reading : Octets → Moving κ

/-- A reading that is one for every device. -/
def Moving.fixed {κ : Type} (r : Reading κ) : Moving κ where
  read _ := r.read
  check := r.check

def constantOf (t : Asn1BER) (v : Given) (instances : List Octets) : Option (Octets → Moving κ) :=
  match t with
  | .integer | .counter32 | .gauge32 | .timeTicks | .counter64 =>
      match v with
      | .str s =>
          if s ≠ placeholder ∨ instances.isEmpty then none
          else
            (instances.mapM fun inst => (numberOf t inst).map fun x => (inst, x)).map fun values inst =>
              .const κ ((values.lookup inst).getD .other)
      | .number n => (numberOf t n).map fun x _ => .const κ x
      | .other => none
  | _ =>
      match v with
      | .str s =>
          if maxCustomValue < s.length then none
          else if placeholder <:+: s then
            some fun inst => .const κ (.str (Substring.replaceAll placeholder inst s))
          else some fun _ => .const κ (.str s)
      | _ => none

def hexOf (t : Asn1BER) (s : Octets) : Option (Moving κ) :=
  if t ≠ .octetString ∧ t ≠ .opaque_ then none
  else
    match Hex.decode (s.filter fun b => b ≠ 58 && b ≠ 32) with
    | none => none
    | some b => if maxCustomValue < b.length then none else some (.const κ (.bytes b))

/-- What is given of an object's value: the switch of `compile`. -/
def CustomObject.readingOf (o : CustomObject φ) (t : Asn1BER) : Option (Octets → Moving κ) :=
  match o.value, o.hex, o.gauge, o.counter with
  | some v, _, _, _ => constantOf t v o.instances
  | none, some s, _, _ => (hexOf t s).map fun r _ => r
  | none, none, gauge, counter =>
      if o.uptime then if t = .timeTicks then some fun _ => .fixed fl.uptime else none
      else if o.secondsUp then if t = .gauge32 then some fun _ => .fixed fl.secondsUp else none
      else
        match gauge, counter with
        | some g, _ => (fl.gauge g t).map fun r _ => r
        | none, some c => (fl.counter c t).map fun r _ => r
        | none, none => none

/-- How many values an object is given. -/
def CustomObject.given (o : CustomObject φ) : Nat :=
  [o.value.isSome, o.hex.isSome, o.uptime, o.secondsUp, o.gauge.isSome, o.counter.isSome].count true

/-- `compile` of an object. -/
def CustomObject.compile (o : CustomObject φ) : Option (CompiledObject κ) := do
  let t ← customTypes.lookup o.type
  let templated := decide (placeholder <:+: o.oid)
  if templated = o.instances.isEmpty then none
  else if !o.instances.all instancePattern || !decide o.instances.Nodup then none
  else if !(parseOID (Substring.replaceAll placeholder [49] o.oid)).isOk then none
  else if o.given ≠ 1 then none
  else
    let reading ← o.readingOf fl t
    return { oid := o.oid, typ := t, instances := o.instances, notifyOnly := o.notifyOnly, reading }

def maxCustomInstances : Nat := 1024

def maxCustomObjects : Nat := 8192

/-- The objects of all the files together, each with where it is in its own. -/
def numbered {α : Type} (sources : List (List α)) : List (Nat × α) :=
  sources.flatMap fun list => list.zipIdx.map fun p => (p.2, p.1)

/-- `compileObjects`. Counted before anything is built. -/
def compileObjects (sources : List (List (CustomObject φ))) :
    Except CustomError (List (CompiledObject κ)) :=
  match (numbered sources).find? fun p => decide (maxCustomInstances < p.2.instances.length) with
  | some (i, _) => .error (.tooManyInstances i)
  | none =>
      if maxCustomObjects < (sources.flatten.map fun o => max 1 o.instances.length).sum then
        .error .tooManyObjects
      else
        (numbered sources).mapM fun (i, o) =>
          match o.compile fl with
          | some c => .ok c
          | none => .error (.object i)

/-! ## Notifications -/

def maxCustomNotifications : Nat := 32

def maxNotificationObjects : Nat := 16

structure Notification where
  name : Octets
  oid : Octets
  objects : List Octets
deriving DecidableEq, Repr

def isAsciiLetter (b : UInt8) : Bool := (65 ≤ b && b ≤ 90) || (97 ≤ b && b ≤ 122)

def notificationNamePattern (s : Octets) : Bool :=
  s.length ≤ 64 && s.head?.any isAsciiLetter && s.tail.all fun b => isAsciiLetter b || isDigit b || b == 45

/-- One notification of a file, as `checkNotifications` makes it. -/
def checkNotification (seen : List Octets) (n : CustomNotification) : Option Notification := do
  if !notificationNamePattern n.name || seen.contains n.name then none
  else
    let id ← (parseOID n.oid).toOption
    if maxNotificationObjects < n.objects.length then none
    else
      let objects ← n.objects.mapM fun name => (parseOID name).toOption
      return { name := n.name, oid := id.string, objects := objects.map Oid.string }

/-- The loop of `checkNotifications`. -/
def checkNotificationsFrom (seen : List Octets) :
    List (Nat × CustomNotification) → Except CustomError (List Notification)
  | [] => .ok []
  | (i, n) :: rest =>
      match checkNotification seen n with
      | none => .error (.notification i)
      | some note => (checkNotificationsFrom (note.name :: seen) rest).map (note :: ·)

/-- `checkNotifications`. Every device's own are taken already. -/
def checkNotifications (sources : List (List CustomNotification)) :
    Except CustomError (List Notification) :=
  if maxCustomNotifications < sources.flatten.length then .error .tooManyNotifications
  else
    checkNotificationsFrom [octets "coldStart", octets "warmStart", octets "authenticationFailure"]
      (numbered sources)

/-! ## What is built -/

def addSystem (id : Identity) (sys : SystemGroup) : List (Object κ) :=
  let own (s t : Octets) : Octets := if s.isEmpty then t else s
  [{ oid := dotted [1, 3, 6, 1, 2, 1, 1, 1, 0], type := .octetString, value := some (const κ (.str sys.descr)) },
    { oid := dotted [1, 3, 6, 1, 2, 1, 1, 2, 0], type := .objectIdentifier,
      value := some (const κ (.str sys.objectID)) },
    { oid := dotted [1, 3, 6, 1, 2, 1, 1, 3, 0], type := .timeTicks, value := some fl.uptime },
    { oid := dotted [1, 3, 6, 1, 2, 1, 1, 4, 0], type := .octetString,
      value := some (const κ (.str (own id.contact sys.contact))) },
    { oid := dotted [1, 3, 6, 1, 2, 1, 1, 5, 0], type := .octetString, value := some (const κ (.str id.name)) },
    { oid := dotted [1, 3, 6, 1, 2, 1, 1, 6, 0], type := .octetString,
      value := some (const κ (.str (own id.location sys.location))) },
    { oid := dotted [1, 3, 6, 1, 2, 1, 1, 7, 0], type := .integer, value := some (const κ (.int sys.services)) }]

def Iface.ifName (f : Iface φ) : Octets := if f.name.isEmpty then f.descr else f.name

/-- A column of `ifTable`. -/
def ifCol (index n : Nat) : Octets := dotted [1, 3, 6, 1, 2, 1, 2, 2, 1, n, index]

/-- A column of `ifXTable`. -/
def ifExt (index n : Nat) : Octets := dotted [1, 3, 6, 1, 2, 1, 31, 1, 1, 1, n, index]

/-- A column's number, its type and what it reads. -/
abbrev Column (κ : Type) : Type := Nat × Asn1BER × Reading κ

/-- The object of a column. -/
def Column.object (name : Nat → Octets) (c : Column κ) : Object κ where
  oid := name c.1
  type := c.2.1
  value := some c.2.2

/-- The columns of `ifTable`. -/
def ifColumns (seed : Nat) (f : Iface φ) : List (Column κ) :=
  let int (n : Int) : Reading κ := const κ (.int n)
  let zero : Reading κ := const κ (.uint32 0)
  let counter (what : Counted) : Reading κ := (fl.ifCounter f.traffic what false).at_ seed
  [(1, .integer, int f.index),
    (2, .octetString, const κ (.str f.descr)),
    (3, .integer, int f.ifType),
    (4, .integer, int f.mtu),
    -- ifSpeed stops at 2^32 - 1, which is why ifHighSpeed exists
    (5, .gauge32, const κ (.uint32 (min f.speed (2 ^ 32 - 1)))),
    (6, .octetString, const κ (.bytes f.mac)),
    (7, .integer, int (if f.adminDown then 2 else 1)),
    (8, .integer, int (if f.up && !f.adminDown then 1 else 2)),
    (9, .timeTicks, zero),
    (10, .counter32, counter .inOctets),
    (11, .counter32, counter .inUcast),
    (12, .counter32, counter .inNUcast),
    (13, .counter32, zero),
    (14, .counter32, counter .inErrors),
    (15, .counter32, counter .inUnknownProtos),
    (16, .counter32, counter .outOctets),
    (17, .counter32, counter .outUcast),
    (18, .counter32, counter .outNUcast),
    (19, .counter32, zero),
    (20, .counter32, zero),
    (21, .gauge32, zero),
    (22, .objectIdentifier, const κ (.str (octets ".0.0")))]

/-- The columns of `ifXTable`. -/
def ifXColumns (seed : Nat) (f : Iface φ) : List (Column κ) :=
  let int (n : Int) : Reading κ := const κ (.int n)
  let counter (what : Counted) : Reading κ := (fl.ifCounter f.traffic what false).at_ seed
  let counter64 (what : Counted) : Reading κ := (fl.ifCounter f.traffic what true).at_ seed
  let physical := f.ifType = 6 ∨ f.ifType = 71
  [(1, .octetString, const κ (.str f.ifName)),
    (2, .counter32, counter .inMcast),
    (3, .counter32, counter .inBcast),
    (4, .counter32, counter .outMcast),
    (5, .counter32, counter .outBcast),
    (6, .counter64, counter64 .inOctets),
    (7, .counter64, counter64 .inUcast),
    (8, .counter64, counter64 .inMcast),
    (9, .counter64, counter64 .inBcast),
    (10, .counter64, counter64 .outOctets),
    (11, .counter64, counter64 .outUcast),
    (12, .counter64, counter64 .outMcast),
    (13, .counter64, counter64 .outBcast),
    (14, .integer, int 1),
    (15, .gauge32, const κ (.uint32 (min (f.speed / 1000000) (2 ^ 32 - 1)))),
    (16, .integer, int 2),
    (17, .integer, int (if physical then 1 else 2)),
    (18, .octetString, const κ (.str f.alias_)),
    (19, .timeTicks, const κ (.uint32 0))]

/-- An object of `ifStackTable`: directly on the wire, or with nothing stacked on it. -/
def ifStack (κ : Type) (oid : Octets) : Object κ where
  oid := oid
  type := .integer
  value := some (const κ (.int 1))

/-- What `addInterfaces` adds of one interface. -/
def addInterface (seed : Nat) (f : Iface φ) : List (Object κ) :=
  (ifColumns fl seed f).map (Column.object (ifCol f.index)) ++
    (ifXColumns fl seed f).map (Column.object (ifExt f.index)) ++
    [ifStack κ (dotted [1, 3, 6, 1, 2, 1, 31, 1, 2, 1, 3, 0, f.index]),
      ifStack κ (dotted [1, 3, 6, 1, 2, 1, 31, 1, 2, 1, 3, f.index, 0])]

def addInterfaces (seed : Nat) (ifs : List (Iface φ)) : List (Object κ) :=
  let zero : Reading κ := const κ (.uint32 0)
  { oid := dotted [1, 3, 6, 1, 2, 1, 2, 1, 0], type := .integer
    value := some (const κ (.int ifs.length)) } ::
    (ifs.flatMap (addInterface fl seed) ++
      [{ oid := dotted [1, 3, 6, 1, 2, 1, 31, 1, 5, 0], type := .timeTicks, value := some zero },
        { oid := dotted [1, 3, 6, 1, 2, 1, 31, 1, 6, 0], type := .timeTicks, value := some zero }])

/-- `mix`: splitmix64's finaliser. -/
def mix (x : UInt64) : UInt64 :=
  let x := x + 0x9E3779B97F4A7C15
  let x := (x ^^^ (x >>> 30)) * 0xBF58476D1CE4E5B9
  let x := (x ^^^ (x >>> 27)) * 0x94D049BB133111EB
  x ^^^ (x >>> 31)

def deviceMAC (seed n : UInt64) : Octets :=
  let h := mix (seed ^^^ (n * 0x100000001B3))
  [2, (h >>> 32).toUInt8, (h >>> 24).toUInt8, (h >>> 16).toUInt8, (h >>> 8).toUInt8, h.toUInt8]

/-- An interface with the address of a device's own, the loopback apart. -/
def Iface.withMAC (seed : Nat) (f : Iface φ) : Iface φ :=
  if f.ifType = 24 then f
  else { f with mac := deviceMAC (UInt64.ofNat seed) (UInt64.ofNat f.index) }

/-- The objects one compiled object makes, the `k`-th. -/
def CompiledObject.made (seed k : Nat) (c : CompiledObject κ) : List (Object κ) :=
  let at_ (oid inst : Octets) (j : Nat) : Object κ :=
    { oid, type := c.typ, value := some ((c.reading inst).at_ ((seed + 2 ^ 20 + k * 2 ^ 10 + j) % 2 ^ 64))
      notifyOnly := c.notifyOnly }
  if c.instances.isEmpty then [at_ c.oid [] 0]
  else c.instances.zipIdx.map fun (inst, j) => at_ (Substring.replaceAll placeholder inst c.oid) inst j

def buildCustom (id : Identity) (sys : SystemGroup) (ifs : List (Iface φ))
    (objs : List (CompiledObject κ)) : List (Object κ) :=
  addSystem fl id sys ++
    (if ifs.isEmpty then [] else addInterfaces fl id.seed (ifs.map (Iface.withMAC id.seed))) ++
    objs.zipIdx.flatMap fun (c, k) => c.made id.seed k

end

end SnmpLens.Simulator
