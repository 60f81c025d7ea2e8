import SnmpLens.Simulator.Walk

/-!
# A recording, and what reads back of it

`pkg/simulator/record.go`. A device's answers are written as a `.snmprec` walk while it
is walked. A recording is read back by the reader every walk goes through, so the two
must agree: object by object, what is read is what was written. The numbers of a
varbind are as `gosnmp.ToBigInt` reads them.
-/

namespace SnmpLens.Simulator

open Utf8 Strings

/-! ## Writing -/

/-- `snmprecTags`. -/
def snmprecTag (t : Asn1BER) : Option Nat :=
  match t with
  | .integer => some 2
  | .octetString => some 4
  | .objectIdentifier => some 6
  | .ipAddress => some 64
  | .counter32 => some 65
  | .gauge32 => some 66
  | .timeTicks => some 67
  | .opaque_ => some 68
  | .counter64 => some 70
  | .other _ => if t = uinteger32 then some 66 else none

def printable (b : Octets) : Bool := b.all fun c => !(c < 0x20 || 0x7e < c)

/-- The line of a `.snmprec`. -/
def lineOf (id : Oid) (tag : Octets) (value : Octets) : Octets :=
  trimPrefix 46 id.string ++ 124 :: (tag ++ 124 :: value)

/-- The value of a varbind as a `.snmprec` writes it, behind an `x` where it is in hex. -/
def writtenValue (toBigInt : Value → Int) (t : Asn1BER) (v : Value) : Option (Octets × Octets) :=
  match t with
  | .octetString | .opaque_ =>
      match v with
      | .bytes b =>
          if t = .octetString ∧ printable b then some ([], b) else some ([120], Hex.encode b)
      | _ => none
  | .objectIdentifier =>
      match v with
      | .str s => (parseOID s).toOption.map fun o => ([], trimPrefix 46 o.string)
      | _ => none
  | .ipAddress =>
      match v with
      | .str s =>
          match Netip.parseAddr (text s).toList with
          | some (.v4 a) => some ([], addrString a)
          | _ => none
      | _ => none
  | _ => some ([], formatInt (toBigInt v))

def snmprecOf (toBigInt : Value → Int) (id : Oid) (pdu : Varbind) : Option Octets := do
  let tag ← snmprecTag pdu.type
  let (x, value) ← writtenValue toBigInt pdu.type pdu.value
  return lineOf id (formatUint tag ++ x) value

structure Recording where
  walk : Octets := []
  objects : Nat := 0
  leftOut : Nat := 0
deriving DecidableEq, Repr

namespace Recording

/-- `Add`, and whether it is refused: the device answers more than a package keeps. -/
def add (toBigInt : Value → Int) (r : Recording) (pdu : Varbind) : Recording × Bool :=
  match parseOID pdu.name with
  | .error _ => (r, false)
  | .ok id =>
      if agentSubtrees.any id.hasPrefix then ({ r with leftOut := r.leftOut + 1 }, false)
      else
        match snmprecOf toBigInt id pdu with
        | none => (r, false)
        | some line =>
            if r.objects = maxRecordedObjects then (r, true)
            else ({ r with walk := r.walk ++ line ++ [10], objects := r.objects + 1 }, false)

/-- A recording of everything a device answered. -/
def addAll (toBigInt : Value → Int) (r : Recording) (pdus : List Varbind) : Recording :=
  pdus.foldl (fun r pdu => (r.add toBigInt pdu).1) r

end Recording

/-! ## What is written, and what it says -/

/-- The line a varbind is recorded as, where it is. -/
def recordedAs (toBigInt : Value → Int) (pdu : Varbind) : Option Octets :=
  match parseOID pdu.name with
  | .error _ => none
  | .ok id => if agentSubtrees.any id.hasPrefix then none else snmprecOf toBigInt id pdu

/-- A varbind as it comes off the wire: a number fits its type. -/
def OnWire (toBigInt : Value → Int) (pdu : Varbind) : Prop :=
  match pdu.type with
  | .integer => -2 ^ 31 ≤ toBigInt pdu.value ∧ toBigInt pdu.value < 2 ^ 31
  | .counter32 | .gauge32 | .timeTicks => 0 ≤ toBigInt pdu.value ∧ toBigInt pdu.value < 2 ^ 32
  | .counter64 => 0 ≤ toBigInt pdu.value ∧ toBigInt pdu.value < 2 ^ 64
  | .other 0x47 => 0 ≤ toBigInt pdu.value ∧ toBigInt pdu.value < 2 ^ 32
  | _ => True

/-- The type a varbind is read back under. SNMPv2 sends an SNMPv1 UInteger32 as a Gauge32. -/
def readAs (t : Asn1BER) : Asn1BER := if t = uinteger32 then .gauge32 else t

/-- **The value read back is the varbind's**: the same number, the same octets, the same OID,
the same address. -/
def SameValue (toBigInt : Value → Int) (t : Asn1BER) (v w : Value) : Prop :=
  match t with
  | .integer => w = .int (toBigInt v)
  | .counter32 | .gauge32 | .timeTicks => ∃ n : Nat, toBigInt v = n ∧ w = .uint32 n
  | .counter64 => ∃ n : Nat, toBigInt v = n ∧ w = .uint64 n
  | .octetString | .opaque_ => ∃ b, v = .bytes b ∧ (w = .bytes b ∨ w = .str b)
  | .objectIdentifier => ∃ s o, v = .str s ∧ parseOID s = .ok o ∧ w = .str o.string
  | .ipAddress =>
      ∃ s a, v = .str s ∧ Netip.parseAddr (text s).toList = some (.v4 a) ∧ w = .str (addrString a)
  | .other _ => False

/-- **An entry that is a varbind read back.** -/
structure ReadsBack (toBigInt : Value → Int) (pdu : Varbind) (e : WalkEntry) : Prop where
  oid : parseOID pdu.name = .ok e.oid
  name : e.name = e.oid.string
  typ : e.typ = readAs pdu.type
  val : SameValue toBigInt e.typ pdu.value e.val

/-! ## A line -/

theorem trimPrefix_string {o : Oid} (h : o ≠ []) : trimPrefix 46 o.string = dotted o := by
  rw [Oid.string_eq h]
  simp [trimPrefix]

theorem lineOf_eq {id : Oid} (h : id ≠ []) (tag value : Octets) :
    lineOf id tag value = dotted id ++ 124 :: (tag ++ 124 :: value) := by
  unfold lineOf
  rw [trimPrefix_string h]

theorem bar_not_mem_dotted (o : Oid) : 124 ∉ dotted o := by
  intro h
  rcases mem_dotted h with h | h
  · cases h
  · cases h

theorem not_digit_not_mem {b : UInt8} (hb : isDigit b = false) (n : Nat) : b ∉ formatUint n := by
  intro h
  rw [isDigit_of_mem h] at hb
  cases hb

theorem trimSuffix_concat (b : UInt8) (s : Octets) : trimSuffix b (s ++ [b]) = s := by
  simp [trimSuffix]

theorem getLast?_formatUint_ne {b : UInt8} (hb : isDigit b = false) (n : Nat) :
    (formatUint n).getLast? ≠ some b :=
  fun h => not_digit_not_mem hb n (List.mem_of_getLast? h)

/-- **What a recorded line is read as**, in text. -/
theorem snmprecEntry_text {s : Octets} {id : Oid} (hid : parseOID s = .ok id) {n : Nat}
    (hn : n < 2 ^ 8) (hvalue : noValue (ofTag n) = false) (value : Octets) :
    snmprecEntry (lineOf id (formatUint n) value) = entryOf id (ofTag n) value none := by
  have hne := (Oid.fits_of_parseArcs (Oid.parseArcs_of_parseOID hid)).ne_nil
  have hbar : octets "|" = [124] := by decide
  have hcolon : (formatUint n).contains 58 = false := by
    simpa using not_digit_not_mem (b := 58) (by decide) n
  have hlast := getLast?_formatUint_ne (b := 120) (by decide) n
  unfold snmprecEntry
  rw [lineOf_eq hne, hbar, cut_singleton (bar_not_mem_dotted id)]
  dsimp only
  rw [cut_singleton (not_digit_not_mem (by decide) n)]
  dsimp only
  rw [if_neg (by simp), Oid.parseOID_dotted hid]
  dsimp only
  rw [if_neg (by rw [hcolon]; simp)]
  unfold trimSuffix
  rw [if_neg hlast, parseUint_formatUint hn]
  dsimp only
  rw [if_neg (by rw [hvalue]; simp), if_neg hlast]

theorem snmprecEntry_hex {s : Octets} {id : Oid} (hid : parseOID s = .ok id) {n : Nat}
    (hn : n < 2 ^ 8) (hvalue : noValue (ofTag n) = false) (b : Octets) :
    snmprecEntry (lineOf id (formatUint n ++ [120]) (Hex.encode b))
      = entryOf id (ofTag n) (Hex.encode b) (some b) := by
  have hne := (Oid.fits_of_parseArcs (Oid.parseArcs_of_parseOID hid)).ne_nil
  have hbar : octets "|" = [124] := by decide
  have htag : ∀ c : UInt8, isDigit c = false → c ≠ 120 → c ∉ formatUint n ++ [120] := by
    intro c hc h120 hmem
    rcases List.mem_append.mp hmem with hmem | hmem
    · exact not_digit_not_mem hc n hmem
    · exact h120 (List.mem_singleton.mp hmem)
  have hcolon : (formatUint n ++ [120]).contains 58 = false := by
    simpa using htag 58 (by decide) (by decide)
  unfold snmprecEntry
  rw [lineOf_eq hne, hbar, cut_singleton (bar_not_mem_dotted id)]
  dsimp only
  rw [cut_singleton (htag 124 (by decide) (by decide))]
  dsimp only
  rw [if_neg (by simp), Oid.parseOID_dotted hid]
  dsimp only
  rw [if_neg (by rw [hcolon]; simp), trimSuffix_concat, parseUint_formatUint hn]
  dsimp only
  rw [if_neg (by rw [hvalue]; simp), if_pos (by simp), Hex.decode_encode]

/-! ## A value -/

theorem parseInt32_formatInt {n : Int} (hlow : -2 ^ 31 ≤ n) (hhigh : n < 2 ^ 31) :
    parseInt32 (formatInt n) = some n := by
  unfold formatInt
  by_cases hneg : n < 0
  · rw [if_pos hneg]
    simp only [parseInt32]
    rw [parseUint_formatUint (show n.natAbs < 2 ^ 32 by omega)]
    simp only [Option.bind_some]
    rw [if_pos (by omega)]
    exact congrArg some (by omega)
  · obtain ⟨b, rest, hb⟩ := List.exists_cons_of_ne_nil (formatUint_ne_nil n.toNat)
    have hdigit : isDigit b = true := isDigit_of_mem (n := n.toNat) (by simp [hb])
    have hparse := @parseUint_formatUint 32 n.toNat (by omega)
    rw [if_neg hneg, hb] at *
    unfold parseInt32
    split
    · rename_i heq
      obtain ⟨rfl, _⟩ := List.cons.inj heq
      cases hdigit
    · rename_i heq
      obtain ⟨rfl, _⟩ := List.cons.inj heq
      cases hdigit
    · rw [hparse]
      simp only [Option.bind_some]
      rw [if_pos (by omega)]
      exact congrArg some (by omega)

theorem parseUint_formatInt {bits n : Nat} (h : n < 2 ^ bits) :
    parseUint bits (formatInt n) = some n := by
  unfold formatInt
  rw [if_neg (by omega), Int.toNat_natCast, parseUint_formatUint h]

theorem parseAddr_addrString (a : BitVec 32) :
    Netip.parseAddr (text (trimSpace (addrString a))).toList = some (.v4 a) := by
  unfold addrString
  have hascii : ∀ b ∈ dotted (Netip.fourOctets a), b.toNat < 128 := by
    intro b hb
    rcases mem_dotted hb with hb | rfl
    · have := isDigit_iff.mp hb
      omega
    · decide
  rw [trimSpace_dotted]
  unfold text
  rw [String.toList_ofList, runes_ascii hascii (Nat.le_refl _)]
  exact Netip.parseAddr_shown a

variable {t : Asn1BER}

theorem entryOf_text {id : Oid} {value : Octets} {w : Value} (ht : t ≠ uinteger32)
    (h : readValue t value none = .ok w) :
    entryOf id t value none = .ok (some { oid := id, name := id.string, typ := t, val := w }) := by
  unfold entryOf
  rw [if_neg ht]
  dsimp only
  rw [if_neg (by simp), h]
  rfl

theorem entryOf_octets {id : Oid} {value : Octets} (b : Octets)
    (ht : t = .octetString ∨ t = .opaque_) :
    entryOf id t value (some b)
      = .ok (some { oid := id, name := id.string, typ := t, val := .bytes b }) := by
  rcases ht with rfl | rfl <;> rfl

variable {toBigInt : Value → Int}

theorem readValue_written {pdu : Varbind} {value : Octets} (hwire : OnWire toBigInt pdu)
    (htag : snmprecTag pdu.type ≠ none)
    (hvalue : writtenValue toBigInt pdu.type pdu.value = some ([], value)) :
    ∃ w, readValue (readAs pdu.type) value none = .ok w ∧
      SameValue toBigInt (readAs pdu.type) pdu.value w := by
  obtain ⟨name, t, v⟩ := pdu
  have hnat : ∀ {bits : Nat}, 0 ≤ toBigInt v ∧ toBigInt v < 2 ^ bits →
      ∃ n : Nat, toBigInt v = n ∧ n < 2 ^ bits := by
    rintro bits ⟨hlow, hhigh⟩
    obtain ⟨n, hn⟩ := Int.eq_ofNat_of_zero_le hlow
    exact ⟨n, hn, by rw [hn] at hhigh; exact_mod_cast hhigh⟩
  have hself : t ≠ uinteger32 → readAs t = t := fun h => if_neg h
  cases t with
  | integer =>
      obtain rfl := (Prod.mk.inj (Option.some.inj hvalue)).2
      rw [hself (by decide)]
      refine ⟨.int (toBigInt v), ?_, rfl⟩
      simp only [readValue]
      rw [parseInt32_formatInt hwire.1 hwire.2]
      rfl
  | octetString =>
      simp only [writtenValue] at hvalue
      split at hvalue
      · rename_i b
        split at hvalue
        · obtain rfl := (Prod.mk.inj (Option.some.inj hvalue)).2
          exact ⟨.str b, rfl, b, rfl, .inr rfl⟩
        · exact absurd (Prod.mk.inj (Option.some.inj hvalue)).1 (by simp)
      · cases hvalue
  | opaque_ =>
      simp only [writtenValue] at hvalue
      split at hvalue
      · exact absurd (Prod.mk.inj (Option.some.inj hvalue)).1 (by simp)
      · cases hvalue
  | objectIdentifier =>
      rw [hself (by decide)]
      cases v with
      | str s =>
          cases ho : parseOID s with
          | error err =>
              simp only [writtenValue, ho] at hvalue
              exact absurd hvalue (by simp [Except.toOption])
          | ok o =>
              simp only [writtenValue, ho] at hvalue
              obtain rfl := (Prod.mk.inj (Option.some.inj hvalue)).2
              have hne := (Oid.fits_of_parseArcs (Oid.parseArcs_of_parseOID ho)).ne_nil
              refine ⟨.str o.string, ?_, s, o, rfl, ho, rfl⟩
              simp only [readValue]
              rw [trimPrefix_string hne, trimSpace_dotted, Oid.parseOID_dotted ho]
              rfl
      | _ => exact absurd hvalue (by simp [writtenValue])
  | ipAddress =>
      rw [hself (by decide)]
      cases v with
      | str s =>
          simp only [writtenValue] at hvalue
          split at hvalue
          · rename_i a ha
            obtain rfl := (Prod.mk.inj (Option.some.inj hvalue)).2
            refine ⟨.str (addrString a), ?_, s, a, rfl, ha, rfl⟩
            simp only [readValue, ipv4Of]
            rw [parseAddr_addrString]
            rfl
          · cases hvalue
      | _ => exact absurd hvalue (by simp [writtenValue])
  | counter32 | gauge32 | timeTicks =>
      rw [hself (by decide)]
      obtain ⟨n, hn, hlt⟩ := hnat hwire
      obtain rfl := (Prod.mk.inj (Option.some.inj hvalue)).2
      refine ⟨.uint32 n, ?_, n, hn, rfl⟩
      simp only [readValue, hn]
      rw [parseUint_formatInt hlt]
      rfl
  | counter64 =>
      rw [hself (by decide)]
      obtain ⟨n, hn, hlt⟩ := hnat hwire
      obtain rfl := (Prod.mk.inj (Option.some.inj hvalue)).2
      refine ⟨.uint64 n, ?_, n, hn, rfl⟩
      simp only [readValue, hn]
      rw [parseUint_formatInt hlt]
      rfl
  | other k =>
      by_cases hk : Asn1BER.other k = uinteger32
      · rw [hk] at hwire hvalue ⊢
        obtain ⟨n, hn, hlt⟩ := hnat hwire
        obtain rfl := (Prod.mk.inj (Option.some.inj hvalue)).2
        refine ⟨.uint32 n, ?_, n, hn, rfl⟩
        simp only [readAs, readValue, hn]
        rw [parseUint_formatInt hlt]
        rfl
      · exact absurd (if_neg hk) htag

theorem ofTag_snmprecTag {n : Nat} (h : snmprecTag t = some n) :
    n < 2 ^ 8 ∧ noValue (ofTag n) = false ∧ ofTag n = readAs t ∧ readAs t ≠ uinteger32 := by
  cases t with
  | other k =>
      by_cases hk : Asn1BER.other k = uinteger32
      · rw [hk] at h ⊢
        obtain rfl := Option.some.inj h
        decide
      · exact absurd (h.symm.trans (if_neg hk)) (by simp)
  | _ =>
      obtain rfl := Option.some.inj h
      decide

theorem written_text_or_hex {v : Value} {x value : Octets}
    (h : writtenValue toBigInt t v = some (x, value)) :
    x = [] ∨ ∃ b, v = .bytes b ∧ x = [120] ∧ value = Hex.encode b ∧
      (t = .octetString ∨ t = .opaque_) := by
  have hoctets : ∀ t', t' = .octetString ∨ t' = .opaque_ → t = t' → x = [] ∨ ∃ b, v = .bytes b ∧
      x = [120] ∧ value = Hex.encode b ∧ (t = .octetString ∨ t = .opaque_) := by
    rintro t' ht' rfl
    cases v with
    | bytes b =>
        have hw : writtenValue toBigInt t (.bytes b) =
            if t = .octetString ∧ printable b then some ([], b) else some ([120], Hex.encode b) := by
          rcases ht' with rfl | rfl <;> rfl
        rw [hw] at h
        split at h
        · exact .inl (Prod.mk.inj (Option.some.inj h)).1.symm
        · obtain ⟨hx, hv⟩ := Prod.mk.inj (Option.some.inj h)
          exact .inr ⟨b, rfl, hx.symm, hv.symm, ht'⟩
    | _ => rcases ht' with rfl | rfl <;> exact absurd h (by simp [writtenValue])
  cases t with
  | octetString => exact hoctets _ (.inl rfl) rfl
  | opaque_ => exact hoctets _ (.inr rfl) rfl
  | objectIdentifier =>
      cases v with
      | str s =>
          obtain ⟨o, _, ho⟩ := Option.map_eq_some_iff.mp h
          exact .inl (Prod.mk.inj ho).1.symm
      | _ => exact absurd h (by simp [writtenValue])
  | ipAddress =>
      cases v with
      | str s =>
          simp only [writtenValue] at h
          split at h
          · exact .inl (Prod.mk.inj (Option.some.inj h)).1.symm
          · cases h
      | _ => exact absurd h (by simp [writtenValue])
  | _ => exact .inl (Prod.mk.inj (Option.some.inj h)).1.symm

/-- **What a varbind is recorded as is read back as the varbind.** -/
theorem readsBack_of_recordedAs {pdu : Varbind} {line : Octets}
    (h : recordedAs toBigInt pdu = some line) (hwire : OnWire toBigInt pdu) :
    ∃ e, snmprecEntry line = .ok (some e) ∧ ReadsBack toBigInt pdu e := by
  unfold recordedAs at h
  cases hid : parseOID pdu.name with
  | error err =>
      rw [hid] at h
      cases h
  | ok id =>
      rw [hid] at h
      dsimp only at h
      split at h
      · cases h
      · unfold snmprecOf at h
        obtain ⟨tag, htag, h⟩ := Option.bind_eq_some_iff.mp h
        obtain ⟨⟨x, value⟩, hvalue, h⟩ := Option.bind_eq_some_iff.mp h
        obtain rfl := Option.some.inj h
        obtain ⟨hlt, hno, hof, hsent⟩ := ofTag_snmprecTag htag
        rcases written_text_or_hex hvalue with rfl | ⟨b, hv, rfl, rfl, ht⟩
        · obtain ⟨w, hread, hsame⟩ := readValue_written hwire (by rw [htag]; simp) hvalue
          refine ⟨⟨id, id.string, readAs pdu.type, w⟩, ?_, ⟨hid, rfl, rfl, hsame⟩⟩
          rw [List.append_nil, snmprecEntry_text hid hlt hno, hof, entryOf_text hsent hread]
        · have hself : readAs pdu.type = pdu.type := by
            rcases ht with ht | ht <;> rw [ht] <;> decide
          refine ⟨⟨id, id.string, pdu.type, .bytes b⟩, ?_, ⟨hid, rfl, hself.symm, ?_⟩⟩
          · rw [snmprecEntry_hex hid hlt hno, hof, hself, entryOf_octets b ht]
          · dsimp only
            rcases ht with ht | ht <;> rw [ht] <;> exact ⟨b, hv, .inl rfl⟩

/-! ## The lines of a recording -/

/-- A line that is printed on its own, and that begins as a line of a `.snmprec` does. -/
structure Recorded (line : Octets) : Prop where
  printed : ∀ b ∈ line, 32 ≤ b.toNat ∧ b.toNat ≤ 126
  start : ∃ (ns : Oid) (d : UInt8), 2 ≤ ns.length ∧ isDigit d = true ∧ dotted ns ++ [124, d] <+: line

theorem printed_dotted {ns : List Nat} {b : UInt8} (h : b ∈ dotted ns) :
    32 ≤ b.toNat ∧ b.toNat ≤ 126 := by
  rcases mem_dotted h with h | rfl
  · have := isDigit_iff.mp h
    omega
  · decide

theorem printed_formatUint {n : Nat} {b : UInt8} (h : b ∈ formatUint n) :
    32 ≤ b.toNat ∧ b.toNat ≤ 126 := by
  have := isDigit_iff.mp (isDigit_of_mem h)
  omega

theorem printed_formatInt {n : Int} {b : UInt8} (h : b ∈ formatInt n) :
    32 ≤ b.toNat ∧ b.toNat ≤ 126 := by
  unfold formatInt at h
  split at h
  · rcases List.mem_cons.mp h with rfl | h
    · decide
    · exact printed_formatUint h
  · exact printed_formatUint h

theorem printed_written {v : Value} {x value : Octets}
    (h : writtenValue toBigInt t v = some (x, value)) :
    ∀ b ∈ value, 32 ≤ b.toNat ∧ b.toNat ≤ 126 := by
  intro c hc
  rcases written_text_or_hex h with rfl | ⟨b, _, _, rfl, _⟩
  · cases t with
    | octetString | opaque_ =>
        cases v with
        | bytes b =>
            simp only [writtenValue] at h
            split at h
            · rename_i hp
              obtain rfl := (Prod.mk.inj (Option.some.inj h)).2
              have := List.all_eq_true.mp hp.2 c hc
              simp only [Bool.not_eq_true', Bool.or_eq_false_iff, decide_eq_false_iff_not,
                UInt8.lt_iff_toNat_lt] at this
              simpa using this
            · exact absurd (Prod.mk.inj (Option.some.inj h)).1 (by simp)
        | _ => exact absurd h (by simp [writtenValue])
    | objectIdentifier =>
        cases v with
        | str s =>
            obtain ⟨o, ho, heq⟩ := Option.map_eq_some_iff.mp h
            obtain rfl := (Prod.mk.inj heq).2
            have hparse : parseOID s = .ok o := by
              cases hs : parseOID s with
              | error err =>
                  rw [hs] at ho
                  exact absurd ho (by simp [Except.toOption])
              | ok o' =>
                  rw [hs] at ho
                  rw [Option.some.inj ho]
            have hne := (Oid.fits_of_parseArcs (Oid.parseArcs_of_parseOID hparse)).ne_nil
            exact printed_dotted (trimPrefix_string hne ▸ hc)
        | _ => exact absurd h (by simp [writtenValue])
    | ipAddress =>
        cases v with
        | str s =>
            simp only [writtenValue] at h
            split at h
            · obtain rfl := (Prod.mk.inj (Option.some.inj h)).2
              exact printed_dotted hc
            · cases h
        | _ => exact absurd h (by simp [writtenValue])
    | _ =>
        obtain rfl := (Prod.mk.inj (Option.some.inj h)).2
        exact printed_formatInt hc
  · have := Hex.mem_encode hc
    omega

theorem recorded_of_recordedAs {pdu : Varbind} {line : Octets}
    (h : recordedAs toBigInt pdu = some line) : Recorded line := by
  unfold recordedAs at h
  cases hid : parseOID pdu.name with
  | error err =>
      rw [hid] at h
      cases h
  | ok id =>
      rw [hid] at h
      dsimp only at h
      split at h
      · cases h
      · unfold snmprecOf at h
        obtain ⟨tag, _, h⟩ := Option.bind_eq_some_iff.mp h
        obtain ⟨⟨x, value⟩, hvalue, h⟩ := Option.bind_eq_some_iff.mp h
        obtain rfl := Option.some.inj h
        have hne := (Oid.fits_of_parseArcs (Oid.parseArcs_of_parseOID hid)).ne_nil
        rw [lineOf_eq hne]
        obtain ⟨d, rest, hd⟩ := List.exists_cons_of_ne_nil (formatUint_ne_nil tag)
        refine ⟨fun b hb => ?_, id, d, Oid.two_le_of_parseOID hid,
          isDigit_of_mem (n := tag) (by simp [hd]), ?_⟩
        · simp only [List.mem_append, List.mem_cons] at hb
          rcases hb with hb | rfl | (hb | hb) | rfl | hb
          · exact printed_dotted hb
          · decide
          · exact printed_formatUint hb
          · rcases written_text_or_hex hvalue with rfl | ⟨_, _, rfl, _⟩
            · cases hb
            · rw [List.mem_singleton.mp hb]
              decide
          · decide
          · exact printed_written hvalue b hb
        · rw [hd]
          exact ⟨rest ++ x ++ 124 :: value, by simp⟩

theorem snmprecLine_of_prefix {ns : List Nat} {d : UInt8} {l : Octets} (hns : 2 ≤ ns.length)
    (hd : isDigit d = true) (h : dotted ns ++ [124, d] <+: l) : snmprecLine l = true := by
  obtain ⟨rest, rfl⟩ := h
  have hne : ns ≠ [] := by
    rintro rfl
    cases hns
  obtain ⟨a, more, ha, hdigit⟩ := head_dotted hne
  have htrim : trimPrefix 46 (dotted ns ++ [124, d] ++ rest) = dotted ns ++ 124 :: d :: rest := by
    have h46 : a ≠ 46 := by
      rintro rfl
      cases hdigit
    rw [ha]
    simp [trimPrefix, h46]
  have htake : (dotted ns ++ 124 :: d :: rest).takeWhile (fun b => isDigit b || b == 46)
      = dotted ns := by
    rw [List.takeWhile_append_of_pos]
    · rw [List.takeWhile_cons_of_neg (by decide), List.append_nil]
    · intro b hb
      rcases mem_dotted hb with hb | rfl
      · rw [hb]
        rfl
      · rfl
  unfold snmprecLine
  rw [htrim]
  dsimp only
  rw [htake, splitOn_dotted hne, List.drop_left, List.length_map]
  have hparts : (ns.map formatUint).all (fun p => !p.isEmpty) = true := by
    rw [List.all_eq_true]
    intro p hp
    obtain ⟨n, _, rfl⟩ := List.mem_map.mp hp
    simpa using formatUint_ne_nil n
  rw [hparts, decide_eq_true hns]
  simpa using hd

namespace Recorded

variable {line : Octets}

theorem prefix_trimSpace (h : Recorded line) : ∃ (ns : Oid) (d : UInt8), 2 ≤ ns.length ∧
    isDigit d = true ∧ dotted ns ++ [124, d] <+: trimSpace line := by
  obtain ⟨ns, d, hns, hd, hstart⟩ := h.start
  refine ⟨ns, d, hns, hd, Strings.prefix_trimSpace (fun b hb => ?_) hstart⟩
  have hvisible : 32 < b.toNat ∧ b.toNat < 128 := by
    rcases List.mem_append.mp hb with hb | hb
    · rcases mem_dotted hb with hb | rfl
      · have := isDigit_iff.mp hb
        omega
      · decide
    · rcases List.mem_cons.mp hb with rfl | hb
      · decide
      · rw [List.mem_singleton.mp hb]
        have := isDigit_iff.mp hd
        omega
  exact not_mem_space hvisible.1 hvisible.2

/-- A line begins with a digit, trimmed or not. -/
theorem head {l : Octets} {ns : Oid} {d : UInt8} (hns : 2 ≤ ns.length)
    (h : dotted ns ++ [124, d] <+: l) : ∃ a rest, l = a :: rest ∧ isDigit a = true := by
  obtain ⟨t, rfl⟩ := h
  obtain ⟨a, rest, ha, hdigit⟩ := @head_dotted ns (by
    rintro rfl
    exact absurd hns (by simp))
  exact ⟨a, rest ++ [124, d] ++ t, by rw [ha]; simp, hdigit⟩

theorem snmprecLine_trimSpace (h : Recorded line) : snmprecLine (trimSpace line) = true := by
  obtain ⟨ns, d, hns, hd, hpre⟩ := h.prefix_trimSpace
  exact snmprecLine_of_prefix hns hd hpre

theorem not_silent (h : Recorded line) : silent line = false := by
  obtain ⟨ns, d, hns, _, hpre⟩ := h.prefix_trimSpace
  obtain ⟨a, rest, ha, _⟩ := head hns hpre
  obtain ⟨ns', d', hns', _, hpre'⟩ := h.start
  obtain ⟨a', rest', ha', hdigit⟩ := head hns' hpre'
  have hhash : a' ≠ 35 := by
    rintro rfl
    cases hdigit
  unfold silent
  rw [ha, ha']
  simpa using hhash

theorem not_undecided (h : Recorded line) : undecided line = false := by
  obtain ⟨ns, d, hns, _, hpre⟩ := h.prefix_trimSpace
  obtain ⟨a, rest, ha, hdigit⟩ := head hns hpre
  have hhash : a ≠ 35 := by
    rintro rfl
    cases hdigit
  unfold undecided
  rw [ha]
  simpa using hhash

theorem trimSuffix_eq_self (h : Recorded line) : trimSuffix 13 line = line := by
  refine if_neg fun hlast => ?_
  have := (h.printed 13 (List.mem_of_getLast? hlast)).1
  exact absurd this (by decide)

theorem not_mem (h : Recorded line) : 10 ∉ line := by
  intro hmem
  exact absurd (h.printed 10 hmem).1 (by decide)

end Recorded

/-- What is written of some lines: each with a line break behind it. -/
def written (lines : List Octets) : Octets := lines.flatMap fun line => line ++ [10]

/-- **The lines of a recording are the lines it was made of**, and an empty one behind them. -/
theorem linesOf_written {lines : List Octets} (h : ∀ line ∈ lines, Recorded line) :
    linesOf (written lines) = lines ++ [[]] := by
  have hbom : trimBom (written lines) = written lines := by
    cases lines with
    | nil => rfl
    | cons line rest =>
        obtain ⟨ns, d, hns, _, hpre⟩ := (h line List.mem_cons_self).start
        obtain ⟨a, more, ha, hdigit⟩ := Recorded.head hns hpre
        have : written (line :: rest) = a :: (more ++ [10] ++ written rest) := by
          simp [written, ha]
        rw [this]
        unfold trimBom
        split
        · rename_i heq
          obtain ⟨rfl, _⟩ := List.cons.inj heq
          cases hdigit
        · rfl
  have hsplit : (written lines).splitOn 10 = lines ++ [[]] := by
    clear hbom
    induction lines with
    | nil => rfl
    | cons line rest ih =>
        have hcons : written (line :: rest) = line ++ 10 :: written rest := by simp [written]
        rw [hcons, List.splitOn_append_cons_self,
          List.splitOn_eq_singleton (h line List.mem_cons_self).not_mem,
          ih fun l hl => h l (List.mem_cons_of_mem line hl)]
        rfl
  unfold linesOf
  rw [hbom, hsplit, List.map_append]
  refine congrArg₂ _ ?_ rfl
  exact (List.map_congr_left fun line hl => (h line hl).trimSuffix_eq_self).trans (List.map_id _)

/-! ## A recording -/

/-- The varbinds that are recorded, as far as there is room. -/
def recorded (toBigInt : Value → Int) (pdus : List Varbind) : List Varbind :=
  (pdus.filter fun pdu => (recordedAs toBigInt pdu).isSome).take maxRecordedObjects

theorem add_eq (toBigInt : Value → Int) (r : Recording) (pdu : Varbind) :
    (recordedAs toBigInt pdu = none ∧ (r.add toBigInt pdu).1.walk = r.walk ∧
      (r.add toBigInt pdu).1.objects = r.objects) ∨
    ∃ line, recordedAs toBigInt pdu = some line ∧
      (r.add toBigInt pdu).1 = if r.objects = maxRecordedObjects then r
        else { r with walk := r.walk ++ line ++ [10], objects := r.objects + 1 } := by
  unfold recordedAs Recording.add
  cases hid : parseOID pdu.name with
  | error err => exact .inl ⟨rfl, rfl, rfl⟩
  | ok id =>
      dsimp only
      by_cases hown : agentSubtrees.any id.hasPrefix = true
      · rw [if_pos hown, if_pos hown]
        exact .inl ⟨rfl, rfl, rfl⟩
      · rw [if_neg hown, if_neg hown]
        cases hline : snmprecOf toBigInt id pdu with
        | none => exact .inl ⟨rfl, rfl, rfl⟩
        | some line =>
            refine .inr ⟨line, rfl, ?_⟩
            dsimp only
            split <;> rfl

/-- **What a whole recording holds**: the lines of what was recorded while there was room. -/
theorem addAll_eq (toBigInt : Value → Int) (pdus : List Varbind) {r : Recording}
    (hroom : r.objects ≤ maxRecordedObjects) :
    (r.addAll toBigInt pdus).walk = r.walk ++
        written ((pdus.filterMap (recordedAs toBigInt)).take (maxRecordedObjects - r.objects)) ∧
      (r.addAll toBigInt pdus).objects = r.objects +
        ((pdus.filterMap (recordedAs toBigInt)).take (maxRecordedObjects - r.objects)).length := by
  induction pdus generalizing r with
  | nil => simp [Recording.addAll, written]
  | cons pdu rest ih =>
      have hcons : r.addAll toBigInt (pdu :: rest)
          = ((r.add toBigInt pdu).1).addAll toBigInt rest := rfl
      rw [hcons]
      rcases add_eq toBigInt r pdu with ⟨hnone, hwalk, hobjects⟩ | ⟨line, hline, hadd⟩
      · have := ih (r := (r.add toBigInt pdu).1) (by rw [hobjects]; exact hroom)
        rw [hwalk, hobjects] at this
        rw [List.filterMap_cons_none hnone]
        exact this
      · rw [List.filterMap_cons_some hline, hadd]
        split
        · rename_i hfull
          have := ih hroom
          rw [hfull, Nat.sub_self, List.take_zero] at this ⊢
          exact this
        · rename_i hnot
          obtain ⟨room, hr⟩ : ∃ room, maxRecordedObjects - r.objects = room + 1 :=
            ⟨maxRecordedObjects - r.objects - 1, by omega⟩
          have hleft : maxRecordedObjects - (r.objects + 1) = room := by omega
          have := @ih { r with walk := r.walk ++ line ++ [10], objects := r.objects + 1 }
            (show r.objects + 1 ≤ maxRecordedObjects by omega)
          dsimp only at this
          rw [hleft] at this
          rw [hr, List.take_succ_cons, this.1, this.2]
          constructor
          · simp [written]
          · rw [List.length_cons]
            omega

/-- The reader takes a recording's lines one after the other, and leaves none out. -/
theorem snmprecFrom_recorded {pdus : List Varbind} (hwire : ∀ pdu ∈ pdus, OnWire toBigInt pdu)
    {lines : List Octets}
    (hlines : List.Forall₂ (fun pdu line => recordedAs toBigInt pdu = some line) pdus lines)
    {w : WalkFile} (hroom : w.entries.length + lines.length ≤ maxRecordedObjects) (n : Nat) :
    ∃ new, snmprecFrom w n (lines ++ [[]]) = .ok { w with entries := w.entries ++ new } ∧
      List.Forall₂ (ReadsBack toBigInt) pdus new := by
  induction hlines generalizing w n with
  | nil =>
      refine ⟨[], ?_, .nil⟩
      rw [List.append_nil]
      rfl
  | @cons pdu line pdus lines hline _ ih =>
      obtain ⟨e, he, hreads⟩ := readsBack_of_recordedAs hline (hwire pdu List.mem_cons_self)
      rw [List.length_cons] at hroom
      have hadd : w.add e = .ok { w with entries := w.entries ++ [e] } :=
        if_neg (show ¬ w.entries.length = maxRecordedObjects by omega)
      obtain ⟨new, hnew, hall⟩ := @ih (fun p hp => hwire p (List.mem_cons_of_mem pdu hp))
        { w with entries := w.entries ++ [e] } (by simp; omega) (n + 1)
      refine ⟨e :: new, ?_, .cons hreads hall⟩
      rw [List.cons_append, snmprecFrom, if_neg (by
        rw [(recorded_of_recordedAs hline).not_silent]
        simp), he]
      simp only [WalkFile.take]
      rw [hadd]
      dsimp only
      rw [hnew]
      simp

theorem forall₂_recorded (toBigInt : Value → Int) (pdus : List Varbind) :
    List.Forall₂ (fun pdu line => recordedAs toBigInt pdu = some line) (recorded toBigInt pdus)
      ((pdus.filterMap (recordedAs toBigInt)).take maxRecordedObjects) := by
  refine List.forall₂_take _ ?_
  induction pdus with
  | nil => exact .nil
  | cons pdu rest ih =>
      cases hline : recordedAs toBigInt pdu with
      | none =>
          rw [List.filter_cons_of_neg (by rw [hline]; simp), List.filterMap_cons_none hline]
          exact ih
      | some line =>
          rw [List.filter_cons_of_pos (by rw [hline]; rfl), List.filterMap_cons_some hline]
          exact .cons hline ih

/--
**A recording reads back as what was recorded.**

Whatever a device answered, in whatever order: the walk is read as the objects that were
recorded, one for one and in their order, each with its OID, its type and its value, and no
line is skipped. An empty recording is the one walk that is not read: it is not a walk.
-/
theorem readWalk_recording (isLetter : Char → Bool) {toBigInt : Value → Int} {pdus : List Varbind}
    (hwire : ∀ pdu ∈ pdus, OnWire toBigInt pdu)
    (hsome : 0 < (Recording.addAll toBigInt {} pdus).objects)
    (hsize : (Recording.addAll toBigInt {} pdus).walk.length ≤ maxWalkBytes) :
    ∃ entries, readWalk isLetter (Recording.addAll toBigInt {} pdus).walk
        = .ok { entries, skipped := 0, first := none } ∧
      List.Forall₂ (ReadsBack toBigInt) (recorded toBigInt pdus) entries ∧
      entries.length = (Recording.addAll toBigInt {} pdus).objects := by
  obtain ⟨hwalk, hobjects⟩ := addAll_eq toBigInt pdus (r := {}) (Nat.zero_le _)
  have hlines := forall₂_recorded toBigInt pdus
  rw [List.nil_append, Nat.sub_zero] at hwalk
  rw [Nat.zero_add, Nat.sub_zero] at hobjects
  have hlen := List.length_take_le maxRecordedObjects (pdus.filterMap (recordedAs toBigInt))
  rw [hobjects] at hsome ⊢
  rw [hwalk] at hsize ⊢
  generalize (pdus.filterMap (recordedAs toBigInt)).take maxRecordedObjects = lines at *
  have hrecorded : ∀ line ∈ lines, Recorded line := by
    intro line hline
    obtain ⟨pdu, _, hp⟩ := left_of_forall₂ hlines hline
    exact recorded_of_recordedAs hp
  have hon : ∀ pdu ∈ recorded toBigInt pdus, OnWire toBigInt pdu := fun pdu hp =>
    hwire pdu (List.mem_of_mem_filter (List.mem_of_mem_take hp))
  obtain ⟨new, hnew, hall⟩ := snmprecFrom_recorded hon hlines (w := {}) (by simpa using hlen) 1
  refine ⟨new, ?_, hall, hall.length_eq.symm.trans hlines.length_eq⟩
  unfold readWalk
  dsimp only
  rw [if_neg (by omega), linesOf_written hrecorded]
  cases lines with
  | nil => cases hsome
  | cons line rest =>
      have hline := hrecorded line List.mem_cons_self
      rw [List.cons_append, List.find?_cons_of_pos (by rw [hline.not_undecided]; rfl)]
      dsimp only
      rw [if_pos hline.snmprecLine_trimSpace]
      exact hnew

/-! ### An answer of each kind -/

/-- The numbers gosnmp decodes. -/
def numberRead : Value → Int
  | .int n => n
  | .uint32 n => n
  | .uint64 n => n
  | _ => 0

/-- A description with a bar in it, a line break, a negative number and an address. -/
def answers : List Varbind :=
  [⟨octets ".1.3.6.1.2.1.1.1.0", .octetString, .bytes (octets "router | edge ")⟩,
    ⟨octets ".1.3.6.1.2.1.1.4.0", .octetString, .bytes (octets "one\ntwo")⟩,
    ⟨octets ".1.3.6.1.2.1.2.2.1.8.1", .integer, .int (-2)⟩,
    ⟨octets ".1.3.6.1.2.1.4.20.1.1.1", .ipAddress, .str (octets "10.0.0.1")⟩,
    ⟨octets ".1.3.6.1.2.1.11.1.0", .counter32, .uint32 123⟩]

theorem readWalk_recording_answers :
    ∃ entries, readWalk (fun _ => false) (Recording.addAll numberRead {} answers).walk
        = .ok { entries, skipped := 0, first := none } ∧
      List.Forall₂ (ReadsBack numberRead) (recorded numberRead answers) entries ∧
      entries.length = (Recording.addAll numberRead {} answers).objects := by
  refine readWalk_recording (fun _ => false) ?_ (by decide +kernel) (by decide +kernel)
  intro pdu hpdu
  simp only [answers, List.mem_cons, List.not_mem_nil, or_false] at hpdu
  rcases hpdu with rfl | rfl | rfl | rfl | rfl
  · trivial
  · trivial
  · exact ⟨by decide, by decide⟩
  · trivial
  · exact ⟨by decide, by decide⟩

/-- An SNMPv1 UInteger32 comes back as a Gauge32, and nothing recorded is not read at all. -/
theorem uinteger32_reads_gauge32 :
    ((readWalk (fun _ => false) (Recording.addAll numberRead {}
      [⟨octets ".1.3.6.1.2.1.25.1.5.0", uinteger32, .uint32 3⟩]).walk).toOption.map
        fun w => w.entries.map WalkEntry.typ) = some [.gauge32] ∧
      readWalk (fun _ => false) (Recording.addAll numberRead {} []).walk = .error .notAWalk := by
  decide

end SnmpLens.Simulator
