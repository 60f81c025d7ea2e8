import Mathlib.Algebra.Group.Int.Defs
import Mathlib.Algebra.Group.Nat.Defs
import Mathlib.Data.List.DropRight
import SnmpLens.Lib.Hex
import SnmpLens.Simulator.Device
import SnmpLens.Simulator.Pdu

/-!
# A recorded walk, read back

`pkg/simulator/walk.go`. What a device answered comes as snmpsim's `.snmprec`, or as
net-snmp's `snmpwalk` prints it; which of the two a file is, is read from its first line.
A line that cannot be read is left out and counted, and a file that is not a walk is
refused. `unicode.IsLetter` is a table of the language's, and is passed in.
-/

namespace SnmpLens.Simulator

open Utf8 Strings

def maxWalkBytes : Nat := 16 * 2 ^ 20

def maxRecordedObjects : Nat := 2 ^ 16

structure WalkEntry where
  oid : Oid
  name : Octets
  typ : Asn1BER
  val : Value
deriving DecidableEq, Repr

/-- Why a line's value could not be read. -/
inductive LineError where
  /-- A line of a `.snmprec` is OID|tag|value. -/
  | fields
  | oid (err : OidError)
  | variationModule
  | tag (text : Octets)
  | valueNotHex
  | notInHex (t : Asn1BER)
  | value (text : Octets) (t : Asn1BER)
  | notSentAs (t : Asn1BER)
  /-- `errNamed`. -/
  | named
  | noOctets
  | opaqueOctets
  | networkAddress
  | notPrinted (kind : Octets)
deriving DecidableEq, Repr

structure WalkFile where
  entries : List WalkEntry := []
  skipped : Nat := 0
  /-- The first line skipped, and why. -/
  first : Option (Nat × LineError) := none
deriving DecidableEq, Repr

/-- Why a file is refused. -/
inductive WalkError where
  | tooLarge
  | notAWalk
  | tooMany
deriving DecidableEq, Repr

namespace WalkFile

def skip (w : WalkFile) (line : Nat) (err : LineError) : WalkFile :=
  { w with
    skipped := w.skipped + 1
    first := if w.skipped = 0 then some (line, err) else w.first }

def add (w : WalkFile) (e : WalkEntry) : Except WalkError WalkFile :=
  if w.entries.length = maxRecordedObjects then .error .tooMany
  else .ok { w with entries := w.entries ++ [e] }

/-- What a line comes to: an entry, nothing, or one more that is skipped. -/
def take (w : WalkFile) (line : Nat) : Except LineError (Option WalkEntry) → Except WalkError WalkFile
  | .error err => .ok (w.skip line err)
  | .ok none => .ok w
  | .ok (some e) => w.add e

end WalkFile

/-! ## Values -/

/-- `gosnmp.Asn1BER` of a tag. -/
def ofTag : Nat → Asn1BER
  | 2 => .integer
  | 4 => .octetString
  | 6 => .objectIdentifier
  | 64 => .ipAddress
  | 65 => .counter32
  | 66 => .gauge32
  | 67 => .timeTicks
  | 68 => .opaque_
  | 70 => .counter64
  | n => .other n

/-- `gosnmp.Null`. -/
def null : Asn1BER := .other 5

/-- `gosnmp.Uinteger32`. -/
def uinteger32 : Asn1BER := .other 0x47

def noValue (t : Asn1BER) : Bool :=
  t == null || t == noSuchObject || t == noSuchInstance || t == endOfMibView

/-- `netip.Addr.String`, of an IPv4 address. -/
def addrString (a : BitVec 32) : Octets := dotted (Netip.fourOctets a)

def ipv4Of (text : Octets) (raw : Option Octets) : Option Octets :=
  match raw with
  | some [a, b, c, d] => some (dotted [a.toNat, b.toNat, c.toNat, d.toNat])
  | some _ => none
  | none =>
      match Netip.parseAddr (Utf8.text (trimSpace text)).toList with
      | some (.v4 a) => some (addrString a)
      | _ => none

/-- The switch of `entryOf`. -/
def readValue (t : Asn1BER) (text : Octets) (raw : Option Octets) : Except LineError Value :=
  let orElse (v : Option Value) : Except LineError Value :=
    match v with
    | some v => .ok v
    | none => .error (.value text t)
  match t with
  | .integer => orElse ((parseInt32 text).map .int)
  | .octetString | .opaque_ =>
      match raw with
      | some b => .ok (.bytes b)
      | none => .ok (.str text)
  | .objectIdentifier => orElse ((parseOID (trimSpace text)).toOption.map fun o => .str o.string)
  | .ipAddress => orElse ((ipv4Of text raw).map .str)
  | .counter32 | .gauge32 | .timeTicks => orElse ((parseUint 32 text).map .uint32)
  | .counter64 => orElse ((parseUint 64 text).map .uint64)
  | .other n => .error (.notSentAs (.other n))

/-- `entryOf`: a value written as text or, where there is `raw`, given as octets. -/
def entryOf (id : Oid) (t : Asn1BER) (text : Octets) (raw : Option Octets) :
    Except LineError (Option WalkEntry) :=
  -- SNMPv1's UInteger32, which SNMPv2 sends as a Gauge32
  let t := if t = uinteger32 then .gauge32 else t
  if raw.isSome ∧ t ≠ .octetString ∧ t ≠ .opaque_ ∧ t ≠ .ipAddress then .error (.notInHex t)
  else (readValue t text raw).map fun v => some { oid := id, name := id.string, typ := t, val := v }

/-! ## snmpsim's format -/

/-- `snmprecLine`: a numeric OID of two arcs or more, a bar and a digit. -/
def snmprecLine (l : Octets) : Bool :=
  let s := trimPrefix 46 l
  let name := s.takeWhile fun b => isDigit b || b == 46
  let parts := name.splitOn 46
  2 ≤ parts.length && parts.all (fun p => !p.isEmpty) &&
    match s.drop name.length with
    | 124 :: d :: _ => isDigit d
    | _ => false

/-- `strings.TrimSuffix` of one octet. -/
def trimSuffix (b : UInt8) (s : Octets) : Octets :=
  if s.getLast? = some b then s.dropLast else s

def snmprecEntry (line : Octets) : Except LineError (Option WalkEntry) :=
  let (name, rest, _) := cut (octets "|") line
  let (tag, value, ok) := cut (octets "|") rest
  if !ok then .error .fields
  else
    match parseOID name with
    | .error err => .error (.oid err)
    | .ok id =>
        if tag.contains 58 then .error .variationModule
        else
          let hexed := tag.getLast? = some 120
          match parseUint 8 (trimSuffix 120 tag) with
          | none => .error (.tag tag)
          | some n =>
              let t := ofTag n
              if noValue t then .ok none
              else if hexed then
                match Hex.decode value with
                | none => .error .valueNotHex
                | some raw => entryOf id t value (some raw)
              else entryOf id t value none

/-- A line that says nothing. -/
def silent (line : Octets) : Bool := (trimSpace line).isEmpty || line.head? == some 35

/-- The loop of `readSnmprec`, from line `n` on. -/
def snmprecFrom (w : WalkFile) (n : Nat) : List Octets → Except WalkError WalkFile
  | [] => .ok w
  | line :: rest =>
      if silent line then snmprecFrom w (n + 1) rest
      else
        match w.take n (snmprecEntry line) with
        | .error err => .error err
        | .ok w => snmprecFrom w (n + 1) rest

def readSnmprec (lines : List Octets) : Except WalkError WalkFile := snmprecFrom {} 1 lines

/-! ## What `snmpwalk` prints -/

/-- `varbindLine`: a line that begins with an OID, however it is written, and an equals sign. -/
def varbindLine (l : Octets) : Bool :=
  let name := l.takeWhile fun b => !(octets "\t\n\x0c\r \"=").contains b
  !name.isEmpty &&
    match l.drop name.length with
    | [32, 61] => true
    | 32 :: 61 :: 32 :: _ => true
    | _ => false

/-- `strings.TrimRight` of blanks and tabs. -/
def trimRight (s : Octets) : Octets := s.rdropWhile fun b => b == 32 || b == 9

/-- `strings.CutPrefix`. -/
def cutPrefix (p s : Octets) : Option Octets := if p.isPrefixOf s then some (s.drop p.length) else none

def opensString (line : Octets) : Bool :=
  let (_, value, _) := cut (octets " = ") line
  match cutPrefix (octets "STRING: \"") value with
  | some s => (trimRight s).getLast? != some 34
  | none => false

def unquote (text : Octets) : Octets :=
  let text := trimRight text
  if 2 ≤ text.length ∧ text.head? = some 34 ∧ text.getLast? = some 34 then text.tail.dropLast
  else text

/-- The loop of `octetsOf`: two digits each, as far as they go. -/
def octetsFrom : List Octets → Octets
  | [] => []
  | f :: rest =>
      match Hex.decode f with
      | some [b] => b :: octetsFrom rest
      | _ => []

def octetsOf (text : Octets) : Option Octets :=
  let out := octetsFrom (fields text)
  if out.isEmpty && !(trimSpace text).isEmpty then none else some out

/-- `digits`. -/
def onlyDigits (s : Octets) : Bool := !s.isEmpty && s.all isDigit

/-- The number in brackets, where there is one. -/
def bracketed (text : Octets) : Option Octets :=
  let (_, inner, opened) := cut (octets "(") text
  let (n, _, closed) := cut (octets ")") inner
  if opened && closed then some n else none

/-- `numberIn`: the number, without what is printed around it. -/
def numberIn (text : Octets) : Octets :=
  let text := trimSpace text
  match bracketed text with
  | some n => n
  | none =>
      match fields text with
      | [] => []
      | n :: _ =>
          let (whole, frac, ok) := cut (octets ".") n
          if ok && onlyDigits (trimPrefix 45 whole) && onlyDigits frac then whole ++ frac else n

/-- `iso` is how `snmpwalk` writes 1. -/
def withoutIso (name : Octets) : Octets :=
  match cutPrefix (octets "iso") name with
  | some rest => if rest.isEmpty || rest.head? == some 46 then 49 :: rest else name
  | none => name

/-- What an agent sent under a type its MIB does not give the object. -/
def withoutWrongType (value : Octets) : Octets :=
  match cutPrefix (octets "Wrong Type") value with
  | none => value
  | some rest =>
      let (_, after, ok) := cut (octets "): ") rest
      if ok then after else value

/-- How `snmpwalk` prints the values of a type. -/
inductive Printed where
  | quoted
  | octets (t : Asn1BER) (orElse : LineError)
  | number (t : Asn1BER)
  | oid
  | address
  | network
deriving DecidableEq, Repr

/-- The cases of the last switch of `snmpwalkEntry`. -/
def printedKinds : List (Octets × Printed) :=
  [(octets "STRING", .quoted), (octets "Hex-STRING", .octets .octetString .noOctets),
    (octets "BITS", .octets .octetString .noOctets), (octets "Opaque", .octets .opaque_ .opaqueOctets),
    (octets "INTEGER", .number .integer), (octets "Gauge32", .number .gauge32),
    (octets "Unsigned32", .number .gauge32), (octets "UInteger32", .number .gauge32),
    (octets "Counter32", .number .counter32), (octets "Counter64", .number .counter64),
    (octets "Timeticks", .number .timeTicks), (octets "OID", .oid), (octets "IpAddress", .address),
    (octets "Network Address", .network)]

/-- The last switch of `snmpwalkEntry`. -/
def printedValue (id : Oid) (kind text : Octets) : Except LineError (Option WalkEntry) :=
  match printedKinds.lookup kind with
  | some .quoted => entryOf id .octetString (unquote text) none
  | some (.octets t err) =>
      match octetsOf text with
      | none => .error err
      | some b => entryOf id t [] (some b)
  | some (.number t) => entryOf id t (numberIn text) none
  | some .oid => entryOf id .objectIdentifier (withoutIso (trimSpace text)) none
  | some .address => entryOf id .ipAddress text none
  | some .network =>
      match Hex.decode ((trimSpace text).filter (· != 58)) with
      | none => .error .networkAddress
      | some b => entryOf id .ipAddress [] (some b)
  | none => .error (.notPrinted kind)

def snmpwalkEntry (isLetter : Char → Bool) (entry : Octets) : Except LineError (Option WalkEntry) :=
  let (name, rest, _) := cut (octets " =") entry
  let value := trimPrefix 32 rest
  let name := withoutIso name
  match parseOID name with
  | .error err => if (text name).toList.any isLetter then .error .named else .error (.oid err)
  | .ok id =>
      if value = octets "\"\"" then
        .ok (some { oid := id, name := id.string, typ := .octetString, val := .str [] })
      else if value = octets "NULL" ∨ (octets "No Such ").isPrefixOf value ∨
          (octets "No more variables").isPrefixOf value then .ok none
      else
        let (kind, shown, _) := cut (octets ": ") (withoutWrongType value)
        printedValue id (trimSuffix 58 kind) shown

/-- The entry being read: its lines, the number of its first, and whether a string in it is open. -/
structure OpenEntry where
  lines : List Octets := []
  start : Nat := 0
  open_ : Bool := false

def flush (isLetter : Char → Bool) (w : WalkFile) (e : OpenEntry) : Except WalkError WalkFile :=
  if e.lines.isEmpty then .ok w
  else w.take e.start (snmpwalkEntry isLetter ([10].intercalate e.lines))

/-- The loop of `readSnmpwalk`, from line `n` on. -/
def snmpwalkFrom (isLetter : Char → Bool) (w : WalkFile) (e : OpenEntry) (n : Nat) :
    List Octets → Except WalkError WalkFile
  | [] => flush isLetter w e
  | line :: rest =>
      if e.open_ then
        let e := { e with
          lines := e.lines ++ [line]
          open_ := (trimRight line).getLast? != some 34 }
        snmpwalkFrom isLetter w e (n + 1) rest
      else if varbindLine line then
        match flush isLetter w e with
        | .error err => .error err
        | .ok w =>
            let e := { lines := [line], start := n, open_ := opensString line }
            snmpwalkFrom isLetter w e (n + 1) rest
      else if silent line then snmpwalkFrom isLetter w e (n + 1) rest
      else if e.lines.isEmpty then snmpwalkFrom isLetter w e (n + 1) rest
      else
        -- a Hex-STRING that wrapped
        snmpwalkFrom isLetter w { e with lines := e.lines ++ [line] } (n + 1) rest

def readSnmpwalk (isLetter : Char → Bool) (lines : List Octets) : Except WalkError WalkFile :=
  snmpwalkFrom isLetter {} {} 1 lines

/-! ## Either -/

/-- `bytes.TrimPrefix` of the byte order mark. -/
def trimBom (data : Octets) : Octets :=
  match data with
  | 0xef :: 0xbb :: 0xbf :: rest => rest
  | _ => data

/-- The lines of a file. -/
def linesOf (data : Octets) : List Octets := ((trimBom data).splitOn 10).map (trimSuffix 13)

/-- A line that does not say which of the two formats a file is in. -/
def undecided (line : Octets) : Bool :=
  (trimSpace line).isEmpty || (trimSpace line).head? == some 35

def readWalk (isLetter : Char → Bool) (data : Octets) : Except WalkError WalkFile :=
  if maxWalkBytes < data.length then .error .tooLarge
  else
    let lines := linesOf data
    match lines.find? fun l => !undecided l with
    | none => .error .notAWalk
    | some l =>
        if snmprecLine (trimSpace l) then readSnmprec lines
        else if varbindLine (trimSpace l) then readSnmpwalk isLetter lines
        else .error .notAWalk

/-! ## What is read is named by its OID -/

/-- An entry's name is its OID's, and an object may have it. -/
def WalkEntry.Named (e : WalkEntry) : Prop := parseOID e.name = .ok e.oid ∧ e.name = e.oid.string

variable {e : WalkEntry}

theorem entryOf_ok {s : Octets} {id : Oid} (hid : parseOID s = .ok id) {t : Asn1BER} {text : Octets}
    {raw : Option Octets} (h : entryOf id t text raw = .ok (some e)) : e.Named := by
  unfold entryOf at h
  dsimp only at h
  generalize (if t = uinteger32 then Asn1BER.gauge32 else t) = t' at h
  split at h
  · cases h
  · cases hv : readValue t' text raw with
    | error err =>
        rw [hv] at h
        exact absurd h (by simp [Except.map])
    | ok v =>
        rw [hv] at h
        obtain rfl := Option.some.inj (Except.ok.inj h)
        exact ⟨Oid.parseOID_string hid, rfl⟩

theorem named_snmprecEntry {line : Octets} (h : snmprecEntry line = .ok (some e)) : e.Named := by
  unfold snmprecEntry at h
  dsimp only at h
  split at h
  · cases h
  · split at h
    · cases h
    · rename_i id hid
      split at h
      · cases h
      · split at h
        · cases h
        · split at h
          · cases h
          · split at h
            · split at h
              · cases h
              · exact entryOf_ok hid h
            · exact entryOf_ok hid h

theorem named_printedValue {s : Octets} {id : Oid} (hid : parseOID s = .ok id) {kind text : Octets}
    (h : printedValue id kind text = .ok (some e)) : e.Named := by
  unfold printedValue at h
  split at h
  · exact entryOf_ok hid h
  · split at h
    · cases h
    · exact entryOf_ok hid h
  · exact entryOf_ok hid h
  · exact entryOf_ok hid h
  · exact entryOf_ok hid h
  · split at h
    · cases h
    · exact entryOf_ok hid h
  · cases h

variable {letter : Char → Bool}

theorem named_snmpwalkEntry {entry : Octets} (h : snmpwalkEntry letter entry = .ok (some e)) :
    e.Named := by
  unfold snmpwalkEntry at h
  dsimp only at h
  split at h
  · split at h
    · cases h
    · cases h
  · rename_i id hid
    split at h
    · obtain rfl := Option.some.inj (Except.ok.inj h)
      exact ⟨Oid.parseOID_string hid, rfl⟩
    · split at h
      · cases h
      · exact named_printedValue hid h

variable {w w' : WalkFile}

namespace WalkFile

/-- Every entry read so far is named. -/
def Named (w : WalkFile) : Prop := ∀ e ∈ w.entries, e.Named

theorem named_take {line : Nat} {x : Except LineError (Option WalkEntry)} (hw : w.Named)
    (hx : ∀ e, x = .ok (some e) → e.Named) (h : w.take line x = .ok w') :
    w'.Named := by
  match x with
  | .error err => exact Except.ok.inj h ▸ hw
  | .ok none => exact Except.ok.inj h ▸ hw
  | .ok (some e) =>
      simp only [take, add] at h
      split at h
      · cases h
      · obtain rfl := Except.ok.inj h
        intro e' he'
        rcases List.mem_append.mp he' with he' | he'
        · exact hw e' he'
        · rw [List.mem_singleton.mp he']
          exact hx e rfl

end WalkFile

theorem named_snmprecFrom {lines : List Octets} {n : Nat} (hw : w.Named)
    (h : snmprecFrom w n lines = .ok w') : w'.Named := by
  induction lines generalizing w n with
  | nil => exact Except.ok.inj h ▸ hw
  | cons line rest ih =>
      unfold snmprecFrom at h
      split at h
      · exact ih hw h
      · split at h
        · cases h
        · rename_i hline
          exact ih (WalkFile.named_take hw (fun e he => named_snmprecEntry he) hline) h

theorem named_flush {e : OpenEntry} (hw : w.Named) (h : flush letter w e = .ok w') : w'.Named := by
  unfold flush at h
  split at h
  · exact Except.ok.inj h ▸ hw
  · exact WalkFile.named_take hw (fun e he => named_snmpwalkEntry he) h

theorem named_snmpwalkFrom {lines : List Octets} {e : OpenEntry} {n : Nat} (hw : w.Named)
    (h : snmpwalkFrom letter w e n lines = .ok w') :
    w'.Named := by
  induction lines generalizing w e n with
  | nil => exact named_flush hw h
  | cons line rest ih =>
      unfold snmpwalkFrom at h
      split at h
      · exact ih hw h
      · split at h
        · split at h
          · cases h
          · rename_i hflush
            exact ih (named_flush hw hflush) h
        · split at h
          · exact ih hw h
          · split at h
            · exact ih hw h
            · exact ih hw h

/-- **Whatever a walk is, what is read of it is named by its OID.** -/
theorem named_readWalk {data : Octets} {w : WalkFile} (h : readWalk letter data = .ok w) :
    w.Named := by
  have hempty : ({} : WalkFile).Named := fun e he => absurd he (by simp)
  unfold readWalk at h
  dsimp only at h
  split at h
  · cases h
  · split at h
    · cases h
    · split at h
      · exact named_snmprecFrom hempty h
      · split at h
        · exact named_snmpwalkFrom hempty h
        · cases h

end SnmpLens.Simulator
