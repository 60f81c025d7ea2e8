import Mathlib.Algebra.Group.Int.Defs
import SnmpLens.Lib.Strings

/-!
# The INDEX of a conceptual table

The two halves of `pkg/mib/table.go` that deal with a row's identity: `DecodeIndexes`
splits an instance into the values its INDEX clause declares, and `EncodeIndex` puts
an instance together from a text for each of them. How many sub-identifiers an index
object takes depends on its syntax, on whether its size is fixed, and on whether the
row says IMPLIED; that the two halves agree on it is for the next modules.

A table is what `gosmi` resolves an OID to. The labels of an enumeration are looked
up by `gosmi` too, and are an argument of the node that has them.
-/

namespace SnmpLens.Mib

open Utf8 Strings

/-! ## What gosmi says of a table -/

/-- `types.BaseType`. -/
inductive BaseType where
  | unknown
  | integer32
  | octetString
  | objectIdentifier
  | unsigned32
  | integer64
  | unsigned64
  | float32
  | float64
  | float128
  | enum
  | bits
  | pointer
deriving DecidableEq, Repr

/-- `models.Range`. -/
structure Range where
  minValue : Int
  maxValue : Int
deriving DecidableEq, Repr

/-- `models.Enum`: the label of a value, and the value of a label. -/
structure Enum where
  name : Int → Octets
  value : Octets → Option Int

/-- `models.Type`. -/
structure SmiType where
  baseType : BaseType
  name : Octets := []
  enum : Option Enum := none
  ranges : List Range := []

/-- `gosmi.SmiNode`. -/
structure SmiNode where
  name : Octets
  type : Option SmiType

/-- `gosmi.Table`, and whether the last object of its INDEX is IMPLIED. -/
structure Table where
  index : List SmiNode
  implied : Bool

/-- What either half objects to, with what it quotes. -/
inductive IndexError where
  | ranOut
  | need (fixed have_ : Nat)
  | lengthNotInt (length : Nat)
  | lengthExceeds (n left : Nat)
  | notAnOctet (sub : Nat)
  | cannotIndexOn (baseType : BaseType)
  | leftOver (n : Nat)
  | emptyInstance
  | notASubIdentifier (text : Octets)
  | noIndex
  | noValue
  | notANumber (text : Octets)
  | notIPv4 (text : Octets)
  | needsExactly (fixed got : Nat)
  | tooLong
  | needsValues (n got : Nat)
  /-- `idx.Name: err`. -/
  | inPart (name : Octets) (err : IndexError)
deriving DecidableEq, Repr

/-! ## Texts -/

/-- `"IpAddress"`. -/
def ipAddressName : Octets := [73, 112, 65, 100, 100, 114, 101, 115, 115]

def SmiType.isIpAddress (t : SmiType) : Bool := t.name == ipAddressName

/-- The digit of a number below sixteen, as `%x` has it. -/
def hexDigit (d : Nat) : UInt8 := UInt8.ofNat (if d < 10 then 48 + d else 87 + d)

/-- `%02x`. -/
def hexOctet (b : Nat) : Octets := [hexDigit (b / 16), hexDigit (b % 16)]

/-- A hexadecimal digit, in either case. -/
def hexValue (b : UInt8) : Option Nat :=
  if 48 ≤ b ∧ b ≤ 57 then some (b.toNat - 48)
  else if 97 ≤ b ∧ b ≤ 102 then some (b.toNat - 87)
  else if 65 ≤ b ∧ b ≤ 70 then some (b.toNat - 55)
  else none

/-- What `renderOctets` shows as text. -/
def printable (b : List Nat) : Bool := !b.isEmpty && b.all fun c => 0x20 ≤ c && c ≤ 0x7e

/-- `renderOctets`: an address as an address, text as text, anything else in hexadecimal. -/
def renderOctets (t : SmiType) (b : List Nat) : Octets :=
  if t.isIpAddress && b.length == 4 then dotted b
  else if printable b then b.map UInt8.ofNat
  else [58].intercalate (b.map hexOctet)

def parseSubIDs (raw : Octets) : Except IndexError (List Nat) :=
  let raw := trimPrefix 46 (trimSpace raw)
  if raw.isEmpty then .error .emptyInstance
  else
    match (raw.splitOn 46).mapM (parseUint 32) with
    | some subs => .ok subs
    | none => .error (.notASubIdentifier raw)

def parseDottedQuad (s : Octets) : Except IndexError (List Nat) :=
  let fields := s.splitOn 46
  if fields.length ≠ 4 then .error (.notIPv4 s)
  else
    match fields.mapM (parseUint 8) with
    | some octets => .ok octets
    | none => .error (.notIPv4 s)

/-- One group of `parseHexOctets`: exactly two digits. -/
def parseHexGroup : Octets → Option Nat
  | [a, b] => do
      let high ← hexValue a
      let low ← hexValue b
      return high * 16 + low
  | _ => none

/-- `parseHexOctets`: at least two groups, between colons or between hyphens. -/
def parseHexOctets (s : Octets) : Option (List Nat) :=
  if s.contains 58 then (s.splitOn 58).mapM parseHexGroup
  else if s.contains 45 then (s.splitOn 45).mapM parseHexGroup
  else none

/-- `math.MaxInt32`. -/
def maxInt32 : Nat := 2 ^ 31 - 1

/-- `fixedSize`: the single exact size a type allows. -/
def fixedSize (t : SmiType) : Option Nat :=
  match t.ranges with
  | [r] =>
      if r.minValue ≠ r.maxValue ∨ r.minValue < 0 ∨ (maxInt32 : Int) < r.minValue then none
      else some r.minValue.toNat
  | _ => none

/-- The size an octet string has in an index, where it is always the same. -/
def SmiType.fixed (t : SmiType) : Option Nat := if t.isIpAddress then some 4 else fixedSize t

/-! ## Decoding -/

structure IndexValue where
  name : Octets := []
  display : Octets
  /-- A `float64`, of numbers that have 32 bits. -/
  sort : Nat := 0
  numeric : Bool := false
deriving DecidableEq, Repr

structure DecodedIndex where
  raw : Octets
  parts : List IndexValue := []
  error : Option IndexError := none
deriving DecidableEq, Repr

/-- `lengthOf`: how many sub-identifiers, and where they start. -/
def lengthOf (subs : List Nat) (implied : Bool) (fixed : Option Nat) :
    Except IndexError (Nat × Nat) :=
  match fixed with
  | some fixed => if subs.length < fixed then .error (.need fixed subs.length) else .ok (fixed, 0)
  | none =>
      if implied then .ok (subs.length, 0)
      else
        let length := subs.headD 0
        if maxInt32 < length then .error (.lengthNotInt length)
        else if subs.length - 1 < length then .error (.lengthExceeds length (subs.length - 1))
        else .ok (length, 1)

/-- A number by itself. -/
def numberValue (v : Nat) : IndexValue :=
  { display := formatUint v, sort := v, numeric := true }

/-- `decodeOne`: one index object off the front, and how much it took. -/
def decodeOne (node : SmiNode) (subs : List Nat) (implied : Bool) :
    Except IndexError (IndexValue × Nat) :=
  match subs with
  | [] => .error .ranOut
  | v :: _ =>
      match node.type with
      | none => .ok (numberValue v, 1)
      | some t =>
          match t.baseType with
          | .enum =>
              match t.enum with
              | none => .ok (numberValue v, 1)
              | some e =>
                  .ok ({ display := e.name v ++ [40] ++ formatUint v ++ [41], sort := v
                         numeric := true }, 1)
          | .integer32 | .unsigned32 | .integer64 | .unsigned64 => .ok (numberValue v, 1)
          | .objectIdentifier => do
              let (n, start) ← lengthOf subs implied none
              return ({ display := dotted ((subs.drop start).take n) }, start + n)
          | .octetString | .bits => do
              let (n, start) ← lengthOf subs implied t.fixed
              let octets := (subs.drop start).take n
              match octets.find? fun sub => 255 < sub with
              | some sub => .error (.notAnOctet sub)
              | none => .ok ({ display := renderOctets t octets }, start + n)
          | other => .error (.cannotIndexOn other)

/-- The loop of `decodeInstance`: the parts, and what is left behind them. -/
def decodeParts (implied : Bool) :
    List SmiNode → List Nat → List IndexValue × Except IndexError (List Nat)
  | [], subs => ([], .ok subs)
  | node :: rest, subs =>
      match decodeOne node subs (implied && rest.isEmpty) with
      | .error err => ([], .error (.inPart node.name err))
      | .ok (value, used) =>
          let (parts, left) := decodeParts implied rest (subs.drop used)
          ({ value with name := node.name } :: parts, left)

def decodeInstance (table : Table) (raw : Octets) : DecodedIndex :=
  match parseSubIDs raw with
  | .error err => { raw, error := some err }
  | .ok subs =>
      if table.index.isEmpty then { raw, error := some .noIndex }
      else
        match decodeParts table.implied table.index subs with
        | (parts, .error err) => { raw, parts, error := some err }
        | (parts, .ok left) =>
            { raw, parts, error := if left.isEmpty then none else some (.leftOver left.length) }

/-- `DecodeIndexes`, of a table that was found. -/
def decodeIndexes (table : Table) (instances : List Octets) : List DecodedIndex :=
  instances.map (decodeInstance table)

/-! ## Encoding -/

def withLength (subs : List Nat) (implied : Bool) (fixed : Option Nat) :
    Except IndexError (List Nat) :=
  match fixed with
  | some fixed =>
      if subs.length ≠ fixed then .error (.needsExactly fixed subs.length) else .ok subs
  | none =>
      if implied then .ok subs
      else if 2 ^ 32 ≤ subs.length then .error .tooLong
      else .ok (subs.length :: subs)

/-- A number and nothing else. -/
def encodeNumber (value : Octets) : Except IndexError (List Nat) :=
  match parseUint 32 value with
  | some v => .ok [v]
  | none => .error (.notANumber value)

/-- The octets of a text that stands for an octet string. -/
def octetsOf (t : SmiType) (value : Octets) : Except IndexError (List Nat) :=
  if t.isIpAddress then parseDottedQuad value
  else
    match parseHexOctets value with
    | some hex => .ok hex
    | none => .ok (value.map UInt8.toNat)

def encodeOne (node : SmiNode) (value : Octets) (implied : Bool) : Except IndexError (List Nat) :=
  if value.isEmpty then .error .noValue
  else
    match node.type with
    | none => encodeNumber value
    | some t =>
        match t.baseType with
        | .enum =>
            -- a label is what the screen shows
            match t.enum.bind fun e => e.value value with
            | some v => .ok [(v % 2 ^ 32).toNat]
            | none => encodeNumber value
        | .integer32 | .unsigned32 | .integer64 | .unsigned64 => encodeNumber value
        | .objectIdentifier => do
            let subs ← parseSubIDs value
            withLength subs implied none
        | .octetString | .bits => do
            let octets ← octetsOf t value
            withLength octets implied t.fixed
        | other => .error (.cannotIndexOn other)

/-- The loop of `EncodeIndex`. -/
def encodeParts (implied : Bool) : List SmiNode → List Octets → Except IndexError (List Nat)
  | node :: rest, value :: values => do
      let enc ← (encodeOne node (trimSpace value) (implied && rest.isEmpty)).mapError
        (.inPart node.name)
      let subs ← encodeParts implied rest values
      return enc ++ subs
  | _, _ => .ok []

/-- `EncodeIndex`, of a table that was found. -/
def encodeIndex (table : Table) (values : List Octets) : Except IndexError Octets :=
  if table.index.isEmpty then .error .noIndex
  else if values.length ≠ table.index.length then
    .error (.needsValues table.index.length values.length)
  else (encodeParts table.implied table.index values).map dotted

end SnmpLens.Mib
