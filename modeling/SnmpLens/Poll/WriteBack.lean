import SnmpLens.Lib.Netip
import SnmpLens.Lib.Number
import SnmpLens.Poll.GetMany

/-!
# A value that is read and written back

The form of a SET is filled with what a GET has shown: `formatSnmpValue` of
`pkg/snmp/client.go`, across the bridge, through `String` in `OperationsPanel.svelte`, and into
`buildPDU` of `pkg/snmp/setmulti.go` with the name of the object's type. Reading chooses a form by
the bytes, and writing chooses a tag by the name: by the nine names of `wireTypes`, or by a part
of the name, or else by whether the text is a number.

`writesBack_iff` says for which names which values come back as they were, or as an error.
-/

namespace SnmpLens.Poll

open Utf8 Strings

/-! ## Numbers and addresses in a text -/

/-- The text without a sign. -/
def unsigned (s : Octets) : Octets := if s.head? = some 45 ∨ s.head? = some 43 then s.tail else s

/-- `strconv.ParseInt` in base 10. `Atoi` is the one of 64 bits. -/
def parseInt (bits : Nat) (s : Octets) : Option Int :=
  (parseUint bits (unsigned s)).bind fun n =>
    if s.head? = some 45 then (if n ≤ 2 ^ (bits - 1) then some (-n) else none)
    else if n < 2 ^ (bits - 1) then some n
    else none

/-- `net.ParseIP`, as far as it is whether there is one. -/
def isIP (s : Octets) : Bool :=
  match Netip.parseAddr (Netip.shown s) with
  | some (.v4 _) => true
  | some (.v6 _ zone) => zone == ""
  | none => false

/-! ## The varbind of a SET -/

/-- `gosnmp.Asn1BER`, of the types of `wireTypes`. -/
inductive WireType where
  | integer | gauge32 | counter32 | counter64 | timeTicks | ipAddress | octetString | opaque_
  | objectIdentifier
deriving DecidableEq, Repr

def WireType.tag : WireType → UInt8
  | integer => 0x02
  | gauge32 => 0x42
  | counter32 => 0x41
  | counter64 => 0x46
  | timeTicks => 0x43
  | ipAddress => 0x40
  | octetString => 0x04
  | opaque_ => 0x44
  | objectIdentifier => 0x06

def wireTypes : List (Octets × WireType) :=
  [(octets "Integer", .integer), (octets "Gauge32", .gauge32), (octets "Counter32", .counter32),
    (octets "Counter64", .counter64), (octets "TimeTicks", .timeTicks),
    (octets "IpAddress", .ipAddress), (octets "OctetString", .octetString),
    (octets "Opaque", .opaque_), (octets "ObjectIdentifier", .objectIdentifier)]

inductive SetError where
  | notInteger (value : Octets)
  | notUnsigned32 (value : Octets)
  | notUnsigned64 (value : Octets)
  | notAnIP (value : Octets)
deriving DecidableEq, Repr

/-- A value, or the error about it. -/
def valueOr {α : Type} (err : SetError) (make : α → PduValue) : Option α → Except SetError PduValue
  | some x => .ok (make x)
  | none => .error err

def encodeWire (t : WireType) (value : Octets) : Except SetError PduValue :=
  match t with
  | .integer => valueOr (.notInteger value) .number (parseInt 32 value)
  | .gauge32 | .counter32 | .timeTicks =>
      valueOr (.notUnsigned32 value) (fun n : Nat => .number n) (parseUint 32 value)
  | .counter64 => valueOr (.notUnsigned64 value) (fun n : Nat => .number n) (parseUint 64 value)
  | .ipAddress => if isIP value then .ok (.text value) else .error (.notAnIP value)
  | .objectIdentifier => .ok (.text value)
  | .octetString | .opaque_ => .ok (.bytes value)

/-- What `buildPDU` takes a type for. -/
inductive Route where
  /-- It is one of the names of `wireTypes`. -/
  | wire (t : WireType)
  | number
  | counter64
  | ipAddress
  | octetString
  | objectIdentifier
  /-- None of the parts it looks for is in the name. -/
  | guess
deriving DecidableEq, Repr

def route (valueType : Octets) : Route :=
  match wireTypes.lookup valueType with
  | some t => .wire t
  | none =>
      let lowerType := toLower valueType
      let contains (part : String) : Bool := decide (octets part <:+: lowerType)
      if contains "integer" || contains "gauge" || contains "unsigned" || contains "counter32" ||
          contains "timeticks" || lowerType == octets "truthvalue" ||
          lowerType == octets "testandincr" || lowerType == octets "rowstatus" ||
          lowerType == octets "storagetype" then .number
      else if contains "counter64" then .counter64
      else if contains "ipaddress" then .ipAddress
      else if contains "octet" || contains "string" || contains "displaystring" ||
          contains "hexstring" then .octetString
      else if contains "objectidentifier" || contains "oid" then .objectIdentifier
      else .guess

def buildPDU (oid value valueType : Octets) : Except SetError SnmpPDU :=
  let pdu (t : WireType) (v : PduValue) : SnmpPDU := { name := oid, type := t.tag, value := v }
  match route valueType with
  | .wire t => (encodeWire t value).map (pdu t)
  | .number => (valueOr (.notInteger value) .number (parseInt 64 value)).map (pdu .integer)
  | .counter64 =>
      (valueOr (.notUnsigned64 value) (fun n : Nat => .number n) (parseUint 64 value)).map (pdu .counter64)
  | .ipAddress => .ok (pdu .ipAddress (.text value))
  | .octetString => .ok (pdu .octetString (.bytes value))
  | .objectIdentifier => .ok (pdu .objectIdentifier (.text value))
  | .guess =>
      match parseInt 64 value with
      | some n => .ok (pdu .integer (.number n))
      | none => .ok (pdu .octetString (.bytes value))

/-! ## What an agent answers -/

inductive Unsigned32 where
  | gauge32 | counter32 | timeTicks
deriving DecidableEq, Repr

def Unsigned32.wire : Unsigned32 → WireType
  | gauge32 => .gauge32
  | counter32 => .counter32
  | timeTicks => .timeTicks

/-- A value of a writable object. -/
inductive Answered where
  | integer (n : BitVec 32)
  | unsigned (t : Unsigned32) (n : BitVec 32)
  | counter64 (n : BitVec 64)
  | ipAddress (a : BitVec 32)
  | oid (arcs : List Nat)
  | octetString (b : Octets)

/-- An OID as gosnmp writes it, with a full stop before each number. -/
def oidText (arcs : List Nat) : Octets := arcs.flatMap fun n => 46 :: formatUint n

def Answered.type : Answered → WireType
  | integer _ => .integer
  | unsigned t _ => t.wire
  | counter64 _ => .counter64
  | ipAddress _ => .ipAddress
  | oid _ => .objectIdentifier
  | octetString _ => .octetString

def Answered.value : Answered → PduValue
  | integer n => .number n.toInt
  | unsigned _ n => .number n.toNat
  | counter64 n => .number n.toNat
  | ipAddress a => .text (dotted (Netip.fourOctets a))
  | oid arcs => .text (oidText arcs)
  | octetString b => .bytes b

/-- The varbind gosnmp makes of it. -/
def Answered.pdu (name : Octets) (v : Answered) : SnmpPDU where
  name := name
  type := v.type.tag
  value := v.value

/-- What `String` makes of a value that has crossed the bridge. -/
def Formatted.string : Formatted → Octets
  | text s => s
  | int64 n => formatInt (Number.shownInt n)
  | uint64 n => formatUint (Number.shown n)

/-- What the form is filled with. -/
def autoFilled (g : Gosnmp) (v : Answered) : Octets := (formatSnmpValue g (v.pdu [])).string

/-- What is written back is of the same type and the same value, or an error. -/
def WritesBack (g : Gosnmp) (oid valueType : Octets) (v : Answered) : Prop :=
  ∀ pdu, buildPDU oid (autoFilled g v) valueType = .ok pdu → pdu = v.pdu oid

/-- What `ToBigInt` and `%v` do to a number and to a text. -/
structure Gosnmp.Plain (g : Gosnmp) : Prop where
  number : ∀ n, g.toBigInt (.number n) = n
  text : ∀ s, g.sprint (.text s) = s

/-! ## Which values come back -/

def WireType.isUnsigned32 : WireType → Bool
  | gauge32 | counter32 | timeTicks => true
  | _ => false

/-- A number that is shown as `m` comes back, or is none of the type that is written. -/
def NumberAgrees (own : WireType) (n m : Int) : Route → Prop
  | .wire .integer => own = .integer ∧ m = n ∨ m < -2 ^ 31 ∨ 2 ^ 31 ≤ m
  | .wire .counter64 => own = .counter64 ∧ m = n ∨ m < 0 ∨ 2 ^ 64 ≤ m
  | .wire .ipAddress => True
  | .wire t => t.isUnsigned32 = true ∧ (own = t ∧ m = n ∨ m < 0 ∨ 2 ^ 32 ≤ m)
  | .number => own = .integer ∧ m = n ∨ m < -2 ^ 63 ∨ 2 ^ 63 ≤ m
  | .counter64 => own = .counter64 ∧ m = n ∨ m < 0 ∨ 2 ^ 64 ≤ m
  | .guess => own = .integer ∧ m = n ∧ -2 ^ 63 ≤ m ∧ m < 2 ^ 63
  | .ipAddress | .octetString | .objectIdentifier => False

/-- The text of an address comes back under its own type, and is refused as a number. -/
def AddressAgrees : Route → Prop
  | .wire .octetString | .wire .opaque_ | .wire .objectIdentifier => False
  | .octetString | .objectIdentifier | .guess => False
  | _ => True

/-- The text of an OID comes back under its own type, and is refused as a number; only the name
`IpAddress` itself has it refused as an address. -/
def OidAgrees : Route → Prop
  | .wire .octetString | .wire .opaque_ => False
  | .ipAddress | .octetString | .guess => False
  | _ => True

/-- Octets come back where they are printable and written as octets, or where what is shown of them
is refused as a number or as an address. -/
def OctetsAgree (shown : Octets) (printable : Bool) : Route → Prop
  | .wire .integer => parseInt 32 shown = none
  | .wire .counter64 => parseUint 64 shown = none
  | .wire .ipAddress => isIP shown = false
  | .wire .octetString => printable = true
  | .wire .opaque_ | .wire .objectIdentifier => False
  | .wire _ => parseUint 32 shown = none
  | .number => parseInt 64 shown = none
  | .counter64 => parseUint 64 shown = none
  | .octetString => printable = true
  | .guess => printable = true ∧ parseInt 64 shown = none
  | .ipAddress | .objectIdentifier => False

/-- When a value comes back through a type of that name. -/
def Agrees (g : Gosnmp) (valueType : Octets) : Answered → Prop
  | .integer n => NumberAgrees .integer n.toInt n.toInt (route valueType)
  | .unsigned t n => NumberAgrees t.wire n.toNat n.toNat (route valueType)
  | .counter64 n => NumberAgrees .counter64 n.toNat (Number.shown n.toNat) (route valueType)
  | .ipAddress _ => AddressAgrees (route valueType)
  | .oid _ => OidAgrees (route valueType)
  | .octetString b => OctetsAgree (formatOctetString g b) (isPrintableOctet g b) (route valueType)

/-! ## Texts that are numbers, and texts that are not -/

theorem isDigit_head_formatUint (n : Nat) : ∃ b, (formatUint n).head? = some b ∧ isDigit b = true := by
  cases h : formatUint n with
  | nil => exact absurd h (formatUint_ne_nil n)
  | cons b rest => exact ⟨b, rfl, isDigit_of_mem (n := n) (by rw [h]; exact List.mem_cons_self)⟩

theorem formatInt_natCast (n : Nat) : formatInt n = formatUint n := by
  unfold formatInt
  rw [if_neg (by omega)]
  rfl

theorem unsigned_formatInt (n : Int) : unsigned (formatInt n) = formatUint n.natAbs := by
  unfold formatInt
  split
  · rfl
  · obtain ⟨b, hb, hdigit⟩ := isDigit_head_formatUint n.toNat
    have hne : ¬ ((formatUint n.toNat).head? = some 45 ∨ (formatUint n.toNat).head? = some 43) := by
      rw [hb, Option.some.injEq, Option.some.injEq]
      rintro (rfl | rfl) <;> cases hdigit
    rw [unsigned, if_neg hne]
    congr 1
    omega

theorem head_formatInt (n : Int) : (formatInt n).head? = some 45 ↔ n < 0 := by
  unfold formatInt
  split
  · rename_i h
    exact iff_of_true rfl h
  · rename_i h
    obtain ⟨b, hb, hdigit⟩ := isDigit_head_formatUint n.toNat
    refine iff_of_false (fun heq => ?_) h
    rw [hb, Option.some.injEq] at heq
    exact absurd (heq ▸ hdigit) (by decide)

theorem parseUint_formatUint_of_le {bits n : Nat} (h : 2 ^ bits ≤ n) :
    parseUint bits (formatUint n) = none := by
  have hv : value (formatUint n) = n := value_digits (Nat.lt_succ_self n)
  unfold parseUint
  rw [hv, if_neg (by omega : ¬ n < 2 ^ bits)]
  exact ite_self _

/-- **A number that is written in decimal is read where the bits hold it.** -/
theorem parseInt_formatInt {bits : Nat} (hbits : 0 < bits) (n : Int) :
    parseInt bits (formatInt n) =
      if -2 ^ (bits - 1) ≤ n ∧ n < 2 ^ (bits - 1) then some n else none := by
  have hpow : 2 ^ bits = 2 * 2 ^ (bits - 1) := by
    obtain ⟨b, rfl⟩ := Nat.exists_eq_succ_of_ne_zero (by omega : bits ≠ 0)
    rw [Nat.pow_succ, Nat.mul_comm]
    rfl
  have hcast : ((2 ^ (bits - 1) : Nat) : Int) = 2 ^ (bits - 1) := by simp
  have hpos : 0 < 2 ^ (bits - 1) := Nat.two_pow_pos _
  unfold parseInt
  rw [unsigned_formatInt]
  rcases Nat.lt_or_ge n.natAbs (2 ^ bits) with hlt | hge
  · rw [parseUint_formatUint hlt, Option.bind_some]
    by_cases hneg : n < 0
    · rw [if_pos ((head_formatInt n).mpr hneg)]
      by_cases hfits : n.natAbs ≤ 2 ^ (bits - 1)
      · rw [if_pos hfits, if_pos (by omega)]
        congr 1
        omega
      · rw [if_neg hfits, if_neg (by omega)]
    · rw [if_neg (fun h => hneg ((head_formatInt n).mp h))]
      by_cases hfits : n.natAbs < 2 ^ (bits - 1)
      · rw [if_pos hfits, if_pos (by omega)]
        congr 1
        omega
      · rw [if_neg hfits, if_neg (by omega)]
  · rw [parseUint_formatUint_of_le hge, Option.bind_none, if_neg (by omega)]

theorem parseUint_formatInt {bits : Nat} (n : Int) :
    parseUint bits (formatInt n) = if 0 ≤ n ∧ n < 2 ^ bits then some n.toNat else none := by
  have hcast : ((2 ^ bits : Nat) : Int) = 2 ^ bits := by simp
  by_cases hneg : n < 0
  · rw [if_neg (by omega), formatInt, if_pos hneg]
    unfold parseUint
    exact if_pos (by simp [isDigit])
  · rw [formatInt, if_neg hneg]
    rcases Nat.lt_or_ge n.toNat (2 ^ bits) with hlt | hge
    · rw [parseUint_formatUint hlt, if_pos (by omega)]
    · rw [parseUint_formatUint_of_le hge, if_neg (by omega)]

variable {s : Octets}

theorem parseUint_of_dot {bits : Nat} (h : 46 ∈ s) : parseUint bits s = none := by
  have hall : s.all isDigit = false := by
    rw [← Bool.not_eq_true, List.all_eq_true]
    exact fun hall => absurd (hall 46 h) (by decide)
  unfold parseUint
  rw [hall]
  exact if_pos (by simp)

theorem parseInt_of_dot {bits : Nat} (h : 46 ∈ s) : parseInt bits s = none := by
  have hrest : 46 ∈ unsigned s := by
    unfold unsigned
    split
    · rename_i hsign
      cases s with
      | nil => exact absurd h List.not_mem_nil
      | cons b s =>
          rcases List.mem_cons.mp h with rfl | h
          · exact absurd hsign (by simp)
          · exact h
    · exact h
  rw [parseInt, parseUint_of_dot hrest]
  rfl

theorem isIP_of_plain (h : ∀ b ∈ s, b = 45 ∨ isDigit b = true) : isIP s = false := by
  have hfind : (Netip.shown s).find? (fun c => c == '.' || c == ':' || c == '%') = none := by
    refine List.find?_eq_none.mpr fun c hc => ?_
    obtain ⟨b, hb, rfl⟩ := List.mem_map.mp hc
    have hlt : b.toNat < 128 ∧ b.toNat ≠ 46 ∧ b.toNat ≠ 58 ∧ b.toNat ≠ 37 := by
      rcases h b hb with rfl | hd
      · decide
      · have := isDigit_iff.mp hd
        omega
    have hc : (Char.ofNat b.toNat).toNat = b.toNat := Netip.toNat_charOfNat hlt.1
    simp only [Bool.or_eq_true, beq_iff_eq, not_or]
    refine ⟨⟨?_, ?_⟩, ?_⟩
    all_goals
      intro heq
      rw [heq] at hc
      revert hc
    · exact fun hc => hlt.2.1 hc.symm
    · exact fun hc => hlt.2.2.1 hc.symm
    · exact fun hc => hlt.2.2.2 hc.symm
  unfold isIP Netip.parseAddr
  rw [hfind]

theorem isIP_formatInt (n : Int) : isIP (formatInt n) = false := by
  refine isIP_of_plain fun b hb => ?_
  unfold formatInt at hb
  split at hb
  · rcases List.mem_cons.mp hb with rfl | hb
    · exact .inl rfl
    · exact .inr (isDigit_of_mem hb)
  · exact .inr (isDigit_of_mem hb)

theorem dot_mem_dotted (a : BitVec 32) : 46 ∈ dotted (Netip.fourOctets a) := by
  unfold Netip.fourOctets
  rw [dotted_cons _ (by simp)]
  simp

theorem isIP_oidText (arcs : List Nat) : isIP (oidText arcs) = false := by
  cases arcs with
  | nil => rfl
  | cons n arcs =>
      have hfour : ∀ t, Netip.parseIPv4 ('.' :: t) = none := by
        intro t
        have hsplit : ('.' :: t).splitOn '.' = [] :: t.splitOn '.' := by
          simp [List.splitOn, List.splitOnP_cons_eq_if_modifyHead]
        unfold Netip.parseIPv4
        rw [hsplit]
        rfl
      have hshown : Netip.shown (oidText (n :: arcs)) =
          '.' :: Netip.shown (formatUint n ++ oidText arcs) := rfl
      unfold isIP Netip.parseAddr
      rw [hshown]
      simp [hfour]

theorem parse_oidText (arcs : List Nat) (bits : Nat) :
    parseInt bits (oidText arcs) = none ∧ parseUint bits (oidText arcs) = none := by
  cases arcs with
  | nil => exact ⟨rfl, rfl⟩
  | cons n arcs => exact ⟨parseInt_of_dot List.mem_cons_self, parseUint_of_dot List.mem_cons_self⟩

/-! ## What is written back -/

variable {g : Gosnmp} {oid valueType : Octets}

theorem tag_inj {t own : WireType} (h : t.tag = own.tag) : t = own := by
  revert h
  cases t <;> cases own <;> decide

/-- A value that is read from the text comes back where it is of its own type and itself. -/
theorem map_pdu_iff {α : Type} {err : SetError} {make : α → PduValue} {x : Option α}
    {t own : WireType} {v : PduValue} :
    (∀ pdu, (valueOr err make x).map (fun w => (⟨oid, t.tag, w⟩ : SnmpPDU)) = .ok pdu →
        pdu = ⟨oid, own.tag, v⟩) ↔
      ∀ y, x = some y → t = own ∧ make y = v := by
  constructor
  · intro h y hy
    subst hy
    obtain ⟨-, htype, hvalue⟩ := SnmpPDU.mk.inj (h _ rfl)
    exact ⟨tag_inj htype, hvalue⟩
  · intro h pdu hpdu
    cases x with
    | none => cases hpdu
    | some y =>
        obtain ⟨rfl, hvalue⟩ := h y rfl
        rw [← Except.ok.inj hpdu, hvalue]

theorem ok_pdu_iff {t own : WireType} {v w : PduValue} :
    (∀ pdu, (Except.ok (⟨oid, t.tag, w⟩ : SnmpPDU) : Except SetError SnmpPDU) = .ok pdu →
        pdu = ⟨oid, own.tag, v⟩) ↔ t = own ∧ w = v := by
  constructor
  · intro h
    obtain ⟨-, htype, hvalue⟩ := SnmpPDU.mk.inj (h _ rfl)
    exact ⟨tag_inj htype, hvalue⟩
  · rintro ⟨rfl, rfl⟩ pdu hpdu
    exact (Except.ok.inj hpdu).symm

/-- What `buildPDU` builds from a text, and the varbind that was read. -/
def Back (oid valueType s : Octets) (own : WireType) (v : PduValue) : Prop :=
  ∀ pdu, buildPDU oid s valueType = .ok pdu → pdu = ⟨oid, own.tag, v⟩

/-- The same, by what `buildPDU` takes the type for. -/
def Returns (s : Octets) (own : WireType) (v : PduValue) : Route → Prop
  | .wire .integer => ∀ y, parseInt 32 s = some y → .integer = own ∧ .number y = v
  | .wire .counter64 => ∀ y : Nat, parseUint 64 s = some y → .counter64 = own ∧ .number y = v
  | .wire .ipAddress => isIP s = true → .ipAddress = own ∧ .text s = v
  | .wire .objectIdentifier => .objectIdentifier = own ∧ .text s = v
  | .wire .octetString => .octetString = own ∧ .bytes s = v
  | .wire .opaque_ => .opaque_ = own ∧ .bytes s = v
  | .wire t => ∀ y : Nat, parseUint 32 s = some y → t = own ∧ .number y = v
  | .number => ∀ y, parseInt 64 s = some y → .integer = own ∧ .number y = v
  | .counter64 => ∀ y : Nat, parseUint 64 s = some y → .counter64 = own ∧ .number y = v
  | .ipAddress => .ipAddress = own ∧ .text s = v
  | .octetString => .octetString = own ∧ .bytes s = v
  | .objectIdentifier => .objectIdentifier = own ∧ .text s = v
  | .guess => (∀ y, parseInt 64 s = some y → .integer = own ∧ .number y = v) ∧
      (parseInt 64 s = none → .octetString = own ∧ .bytes s = v)

theorem back_iff {own : WireType} {v : PduValue} :
    Back oid valueType s own v ↔ Returns s own v (route valueType) := by
  unfold Back buildPDU
  cases route valueType with
  | wire t =>
      cases t with
      | integer | gauge32 | counter32 | timeTicks | counter64 => exact map_pdu_iff
      | octetString | opaque_ | objectIdentifier => exact ok_pdu_iff
      | ipAddress =>
          simp only [encodeWire, Returns]
          cases isIP s with
          | true => exact ok_pdu_iff.trans ⟨fun h _ => h, fun h => h rfl⟩
          | false => exact iff_of_true (fun _ h => nomatch h) fun h => nomatch h
  | number | counter64 => exact map_pdu_iff
  | ipAddress | octetString | objectIdentifier => exact ok_pdu_iff
  | guess =>
      simp only [Returns]
      cases parseInt 64 s with
      | none =>
          exact ok_pdu_iff.trans ⟨fun h => ⟨fun _ hy => (nomatch hy), fun _ => h⟩, fun h => h.2 rfl⟩
      | some n =>
          refine ok_pdu_iff.trans ⟨fun h => ⟨fun y hy => ?_, fun hnone => (nomatch hnone)⟩,
            fun h => h.1 n rfl⟩
          rwa [← Option.some.inj hy]

/-- **When a number comes back.** -/
theorem returns_number_iff {own : WireType} {n m : Int} (r : Route) :
    Returns (formatInt m) own (.number n) r ↔ NumberAgrees own n m r := by
  have hint : ∀ bits, 0 < bits → ((∀ y, parseInt bits (formatInt m) = some y →
      WireType.integer = own ∧ PduValue.number y = .number n) ↔
        own = .integer ∧ m = n ∨ m < -2 ^ (bits - 1) ∨ 2 ^ (bits - 1) ≤ m) := by
    intro bits hbits
    rw [parseInt_formatInt hbits]
    split
    · rename_i hfits
      rw [or_iff_left (by omega)]
      simp [eq_comm]
    · rename_i hfits
      exact iff_of_true (fun _ h => nomatch h) (.inr (by omega))
  have huint : ∀ bits (t : WireType), ((∀ y : Nat, parseUint bits (formatInt m) = some y →
      t = own ∧ PduValue.number y = .number n) ↔
        own = t ∧ m = n ∨ m < 0 ∨ 2 ^ bits ≤ m) := by
    intro bits t
    rw [parseUint_formatInt]
    split
    · rename_i hfits
      rw [or_iff_left (by omega)]
      have hm : ((m.toNat : Nat) : Int) = m := by omega
      simp [hm, eq_comm]
    · rename_i hfits
      exact iff_of_true (fun _ h => nomatch h) (.inr (by omega))
  cases r with
  | wire t =>
      cases t with
      | integer => exact hint 32 (by decide)
      | gauge32 | counter32 | timeTicks => exact (huint 32 _).trans (and_iff_right rfl).symm
      | counter64 => exact huint 64 _
      | ipAddress =>
          refine iff_of_true (fun hip => ?_) trivial
          rw [isIP_formatInt] at hip
          cases hip
      | octetString | opaque_ | objectIdentifier =>
          exact iff_of_false (fun h => nomatch h.2) fun h => nomatch h.1
  | number => exact hint 64 (by decide)
  | counter64 => exact huint 64 _
  | ipAddress | octetString | objectIdentifier => exact iff_of_false (fun h => nomatch h.2) id
  | guess =>
      simp only [Returns, NumberAgrees]
      rw [parseInt_formatInt (by decide)]
      by_cases hfits : -2 ^ (64 - 1) ≤ m ∧ m < 2 ^ (64 - 1)
      · rw [if_pos hfits]
        constructor
        · rintro ⟨h, -⟩
          obtain ⟨hown, hvalue⟩ := h m rfl
          exact ⟨hown.symm, PduValue.number.inj hvalue, hfits.1, hfits.2⟩
        · rintro ⟨rfl, rfl, -⟩
          exact ⟨fun y hy => ⟨rfl, congrArg _ (Option.some.inj hy).symm⟩, fun hnone => nomatch hnone⟩
      · rw [if_neg hfits]
        exact iff_of_false (fun h => nomatch (h.2 rfl).2) fun h => hfits ⟨h.2.2.1, h.2.2.2⟩

theorem returns_address_iff (a : BitVec 32) (r : Route) :
    Returns (dotted (Netip.fourOctets a)) .ipAddress (.text (dotted (Netip.fourOctets a))) r ↔
      AddressAgrees r := by
  have hdot := dot_mem_dotted a
  cases r with
  | wire t => cases t <;> simp [Returns, AddressAgrees, parseInt_of_dot hdot, parseUint_of_dot hdot]
  | _ => simp [Returns, AddressAgrees, parseInt_of_dot hdot, parseUint_of_dot hdot]

theorem returns_oid_iff (arcs : List Nat) (r : Route) :
    Returns (oidText arcs) .objectIdentifier (.text (oidText arcs)) r ↔ OidAgrees r := by
  cases r with
  | wire t => cases t <;> simp [Returns, OidAgrees, (parse_oidText arcs _).1, (parse_oidText arcs _).2, isIP_oidText]
  | _ => simp [Returns, OidAgrees, (parse_oidText arcs _).1, (parse_oidText arcs _).2]

theorem formatOctetString_eq_iff (b : Octets) :
    formatOctetString g b = b ↔ isPrintableOctet g b = true := by
  unfold formatOctetString
  split
  · rename_i h
    exact iff_of_true rfl h
  · rename_i h
    refine iff_of_false (fun heq => ?_) h
    have hlen : ∀ b : Octets, b ≠ [] →
        ([58].intercalate (b.map hexUpper) : Octets).length + 1 = 3 * b.length := by
      intro b
      induction b with
      | nil => exact fun hne => absurd rfl hne
      | cons x b ih =>
          intro _
          cases b with
          | nil => rfl
          | cons y b =>
              have hrest := ih (by simp)
              rw [List.map_cons, List.intercalate_cons_of_ne_nil (by simp), List.length_append,
                List.length_append]
              have hx : (hexUpper x).length = 2 := rfl
              simp only [List.length_cons, List.length_nil] at hrest ⊢
              omega
    cases b with
    | nil => exact h rfl
    | cons x b =>
        have hlength := hlen (x :: b) (by simp)
        rw [heq] at hlength
        omega

theorem returns_octets_iff (b : Octets) (r : Route) :
    Returns (formatOctetString g b) .octetString (.bytes b) r ↔
      OctetsAgree (formatOctetString g b) (isPrintableOctet g b) r := by
  have hsame := formatOctetString_eq_iff (g := g) b
  have hnone : ∀ {α : Type} (x : Option α), (∀ y, x ≠ some y) ↔ x = none := fun x =>
    (Option.eq_none_iff_forall_ne_some).symm
  cases r with
  | wire t => cases t <;> simp [Returns, OctetsAgree, hsame, hnone]
  | guess =>
      simp only [Returns, OctetsAgree, PduValue.bytes.injEq, hsame]
      constructor
      · rintro ⟨hnumber, hoctets⟩
        have hparse : parseInt 64 (formatOctetString g b) = none :=
          (hnone _).mp fun y hy => nomatch (hnumber y hy).2
        exact ⟨(hoctets hparse).2, hparse⟩
      · rintro ⟨hprintable, hparse⟩
        exact ⟨fun y hy => (nomatch hparse.symm.trans hy), fun _ => ⟨trivial, hprintable⟩⟩
  | _ => simp [Returns, OctetsAgree, hsame, hnone]

/-! ## What the form is filled with -/

/-- A number crosses the bridge as one, and is shown as JavaScript shows it. -/
theorem autoFilled_number (hg : g.Plain) {v : Answered} {n : Int} (hv : v.value = .number n)
    (ht : v.type ∉ [WireType.octetString, .objectIdentifier, .ipAddress])
    (hlow : -2 ^ 63 ≤ n) (hhigh : n < 2 ^ 64) :
    autoFilled g v = formatInt (Number.shownInt n) := by
  have htag : v.type.tag ∉ ([0x04, 0x06, 0x40, 0x80, 0x81, 0x82] : List UInt8) := by
    revert ht
    generalize v.type = t
    cases t <;> decide
  simp only [List.mem_cons, List.not_mem_nil, or_false, not_or] at htag
  obtain ⟨h1, h2, h3, h4, h5, h6⟩ := htag
  unfold autoFilled formatSnmpValue Answered.pdu
  dsimp only
  rw [if_neg h1, if_neg h2, if_neg h3, if_neg h4, if_neg h5, if_neg h6, hv, hg.number]
  split
  · rfl
  · rename_i hbig
    have hn : ¬ n < 0 := by omega
    rw [if_pos (by omega)]
    show formatUint (Number.shown n.toNat) = _
    rw [Number.shownInt, if_neg hn, formatInt_natCast]

theorem autoFilled_text (hg : g.Plain) {v : Answered} (hv : v.value = .text s)
    (ht : v.type = .objectIdentifier ∨ v.type = .ipAddress) : autoFilled g v = s := by
  unfold autoFilled formatSnmpValue Answered.pdu
  dsimp only
  rw [hv]
  rcases ht with ht | ht
  · rw [ht]
    exact hg.text s
  · rw [ht]
    exact hg.text s

/-- **When a value comes back**: for every name of a type and every value, what is written back is
what was read, or an error, exactly where the name and what is shown agree. -/
theorem writesBack_iff (hg : g.Plain) (oid valueType : Octets) (v : Answered) :
    WritesBack g oid valueType v ↔ Agrees g valueType v := by
  have hback : WritesBack g oid valueType v ↔
      Returns (autoFilled g v) v.type v.value (route valueType) := back_iff
  rw [hback]
  cases v with
  | integer n =>
      have hlow := BitVec.le_two_mul_toInt (x := n)
      have hhigh := BitVec.two_mul_toInt_lt (x := n)
      have hfilled : autoFilled g (.integer n) = formatInt n.toInt := by
        rw [autoFilled_number hg (n := n.toInt) rfl (by simp [Answered.type]) (by omega) (by omega),
          Number.shownInt_of_lt (by omega)]
      rw [hfilled]
      exact returns_number_iff _
  | unsigned t n =>
      have hlt := n.isLt
      have hfilled : autoFilled g (.unsigned t n) = formatInt (n.toNat : Int) := by
        rw [autoFilled_number hg (n := n.toNat) rfl
            (by cases t <;> simp [Answered.type, Unsigned32.wire]) (by omega) (by omega),
          Number.shownInt_of_lt (by omega)]
      rw [hfilled]
      exact returns_number_iff _
  | counter64 n =>
      have hlt := n.isLt
      have hfilled : autoFilled g (.counter64 n) = formatInt (Number.shown n.toNat : Int) := by
        rw [autoFilled_number hg (n := n.toNat) rfl (by simp [Answered.type]) (by omega) (by omega),
          Number.shownInt, if_neg (by omega), Int.toNat_natCast]
      rw [hfilled]
      exact returns_number_iff _
  | ipAddress a =>
      rw [autoFilled_text hg (s := dotted (Netip.fourOctets a)) rfl (.inr rfl)]
      exact returns_address_iff a _
  | oid arcs =>
      rw [autoFilled_text hg (s := oidText arcs) rfl (.inl rfl)]
      exact returns_oid_iff arcs _
  | octetString b => exact returns_octets_iff b _

/-! ## A name, and a physical address -/

/-- A machine whose printable characters are the ones of ASCII. -/
def ascii : Gosnmp where
  typeName _ := []
  toBigInt
    | .number n => n
    | _ => 0
  sprint
    | .text s => s
    | _ => []
  isPrint c := 32 ≤ c.toNat && c.toNat < 127

theorem ascii_plain : ascii.Plain := ⟨fun _ => rfl, fun _ => rfl⟩

theorem writesBack_iff_displayString :
    WritesBack ascii (octets ".1.3.6.1.2.1.1.5.0") (octets "DisplayString")
      (.octetString (octets "core-1")) := by
  refine (writesBack_iff ascii_plain _ _ _).mpr ?_
  have hroute : route (octets "DisplayString") = .octetString := by decide
  rw [Agrees, hroute]
  show isPrintableOctet ascii (octets "core-1") = true
  decide

/-- **A physical address is written back as the text of its octets.** -/
theorem physAddress_overwritten :
    ¬ WritesBack ascii (octets ".1.3.6.1.2.1.2.2.1.6.1") (octets "PhysAddress")
      (.octetString [0x00, 0x1a, 0x2b]) := by
  intro h
  have hbuilt : buildPDU (octets ".1.3.6.1.2.1.2.2.1.6.1")
      (autoFilled ascii (.octetString [0x00, 0x1a, 0x2b])) (octets "PhysAddress") =
      .ok ⟨octets ".1.3.6.1.2.1.2.2.1.6.1", 0x04, .bytes (octets "00:1A:2B")⟩ := by decide
  exact absurd (h _ hbuilt) (by decide)

end SnmpLens.Poll
