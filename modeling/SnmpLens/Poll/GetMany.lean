import Mathlib.Algebra.Group.Int.Defs
import Mathlib.Algebra.Group.Nat.Defs
import Mathlib.Data.List.Infix
import Mathlib.Data.List.Nodup
import Mathlib.Data.List.Pairwise
import SnmpLens.Lib.Strings

/-!
# Several OIDs in one request

`getManyOne` of `pkg/snmp/operations.go`, `formatSnmpValue` of `client.go`, and what
`toReading` of `internal/app/monitor.go` makes of the answer. A varbind is attributed to
the OID that was asked for at its position. Neither the name of the varbind nor the
error-status of the reply is looked at, so `getMany_faithful_iff` needs of the agent what
the code does not check: that it answers in order, and that a refusal comes as a Go error.

What `gosnmp` makes of a varbind is passed in, and so are the tables of the language.
-/

namespace SnmpLens.Poll

open Utf8 Strings

/-! ## Varbinds -/

/-- What is under the `any` of a varbind. -/
inductive PduValue where
  | null
  | bytes (b : Octets)
  | text (s : Octets)
  | number (n : Int)
  /-- A float, and whatever else there is. -/
  | other (shown : Octets)
deriving DecidableEq, Repr

/-- `gosnmp.SnmpPDU`; the type is its BER tag. -/
structure SnmpPDU where
  name : Octets
  type : UInt8
  value : PduValue
deriving DecidableEq, Repr

/-- What is not under this repository. -/
structure Gosnmp where
  /-- `Asn1BER.String`. -/
  typeName : UInt8 → Octets
  /-- `gosnmp.ToBigInt`. -/
  toBigInt : PduValue → Int
  /-- `fmt.Sprintf("%v", value)`. -/
  sprint : PduValue → Octets
  /-- `unicode.IsPrint`. -/
  isPrint : Char → Bool

/-- What a value crosses the bridge as. -/
inductive Formatted where
  | text (s : Octets)
  | int64 (n : Int)
  | uint64 (n : Nat)
deriving DecidableEq, Repr

/-- `isPrintableOctet`. What is no UTF-8 reads as the rune that is refused. -/
def isPrintableOctet (g : Gosnmp) (b : Octets) : Bool :=
  (runes b.length b).all fun r =>
    r.toNat != runeError && (g.isPrint r || r == '\t' || r == '\n' || r == '\r')

/-- `%02X`. -/
def hexUpper (b : UInt8) : Octets :=
  let digit (n : Nat) : UInt8 := if n < 10 then UInt8.ofNat (48 + n) else UInt8.ofNat (55 + n)
  [digit (b.toNat / 16), digit (b.toNat % 16)]

def formatOctetString (g : Gosnmp) (b : Octets) : Octets :=
  if isPrintableOctet g b then b else [58].intercalate (b.map hexUpper)

def formatSnmpValue (g : Gosnmp) (v : SnmpPDU) : Formatted :=
  if v.type = 0x04 then
    match v.value with
    | .bytes b => .text (formatOctetString g b)
    | value => .text (g.sprint value)
  else if v.type = 0x06 then .text (g.sprint v.value)
  else if v.type = 0x40 then .text (g.sprint v.value)
  else if v.type = 0x80 then .text (octets "noSuchObject")
  else if v.type = 0x81 then .text (octets "noSuchInstance")
  else if v.type = 0x82 then .text (octets "endOfMibView")
  else
    let bi := g.toBigInt v.value
    if -2 ^ 63 ≤ bi ∧ bi < 2 ^ 63 then .int64 bi
    else if 0 ≤ bi ∧ bi < 2 ^ 64 then .uint64 bi.toNat
    else .text (formatInt bi)

/-- `Result`: one answer, under the name the agent gave it. -/
structure Result where
  oid : Octets
  type : Octets
  value : Formatted
deriving DecidableEq, Repr

/-- What is made of a varbind. -/
def resultOf (g : Gosnmp) (v : SnmpPDU) : Result where
  oid := v.name
  type := g.typeName v.type
  value := formatSnmpValue g v

/-! ## The batched request -/

def maxVarbindsPerGet : Nat := 30

/-- `gosnmp.SnmpPacket`, of which the code reads `Variables` (`vars`) only. -/
structure SnmpPacket where
  errorStatus : Nat
  vars : List SnmpPDU
deriving DecidableEq, Repr

/-- What `g.Get` returns. -/
inductive Reply where
  | failed (err : Octets)
  | packet (p : SnmpPacket)
deriving DecidableEq, Repr

/-- What a chunk meets: whether the poll is cancelled before it is sent, and the reply. -/
structure Round where
  cancelled : Option Octets := none
  reply : Reply
deriving DecidableEq, Repr

/-- `MultiResult`: the two maps, by the OID as it was requested. -/
structure MultiResult where
  results : Octets → Option Result := fun _ => none
  errors : Octets → Option Octets := fun _ => none

namespace MultiResult

/-- `m.Errors[oid] = err`. -/
def fail (m : MultiResult) (oid err : Octets) : MultiResult :=
  { m with errors := fun o => if o = oid then some err else m.errors o }

/-- `m.Results[oid] = r`. -/
def answer (m : MultiResult) (oid : Octets) (r : Result) : MultiResult :=
  { m with results := fun o => if o = oid then some r else m.results o }

end MultiResult

def noResult : Octets := octets "no result returned"

/-- What stands at a position of the reply. -/
def takeVarbind (g : Gosnmp) (p : SnmpPacket) (m : MultiResult) (x : Octets × Nat) : MultiResult :=
  match p.vars[x.2]? with
  | none => m.fail x.1 noResult
  | some v => m.answer x.1 (resultOf g v)

/-- The loop of `getManyOne`, over the chunks and what each of them meets. -/
def getChunks (g : Gosnmp) : List (List Octets × Round) → MultiResult → MultiResult
  | [], m => m
  | (chunk, round) :: rest, m =>
      match round.cancelled with
      | some err => (chunk ++ rest.flatMap Prod.fst).foldl (fun m oid => m.fail oid err) m
      | none =>
          match round.reply with
          | .failed err =>
              getChunks g rest (chunk.foldl (fun m oid => m.fail oid (octets "get failed: " ++ err)) m)
          | .packet p => getChunks g rest (chunk.zipIdx.foldl (takeVarbind g p) m)

/-- `oids[from:to]`, for every `from`. -/
def split (size : Nat) : Nat → List Octets → List (List Octets)
  | 0, _ => []
  | fuel + 1, oids =>
      if oids = [] then [] else oids.take size :: split size fuel (oids.drop size)

/-- The OIDs of some chunks. -/
def oidsOf (asked : List (List Octets × Round)) : List Octets := asked.flatMap Prod.fst

/-- `getManyOne`, over chunks however they are split: a connection that fails is reported
for every OID. -/
def getMany (g : Gosnmp) (connect : Option Octets) (asked : List (List Octets × Round)) :
    MultiResult :=
  match connect with
  | some err => (oidsOf asked).foldl (fun m oid => m.fail oid err) {}
  | none => getChunks g asked {}

/-- `getManyOne`; `rounds` is what each chunk meets. -/
def getManyOne (g : Gosnmp) (connect : Option Octets) (oids : List Octets) (rounds : Nat → Round) :
    MultiResult :=
  getMany g connect
    ((split maxVarbindsPerGet oids.length oids).zipIdx.map fun x => (x.1, rounds x.2))

/-! ## Readings -/

/-- `Reading`, as far as an answer makes it. The value is the number a `float64` is made of. -/
structure Reading where
  oid : Octets
  value : Option Int := none
  snmpType : Octets := []
  error : Octets := []
deriving DecidableEq, Repr

def nonNumericTypes : List Octets :=
  [octets "octetstring", octets "objectidentifier", octets "ipaddress", octets "opaque",
    octets "nsapaddress", octets "bitstring"]

def errorSentinels : List Octets :=
  [octets "noSuchObject", octets "noSuchInstance", octets "endOfMibView"]

/-- `strings.ToLower` of ASCII, which a type's name is. -/
def toLower (s : Octets) : Octets := s.map fun b => if 65 ≤ b && b ≤ 90 then b + 32 else b

def numericValue : Formatted → Option Int
  | .text _ => none
  | .int64 n => some n
  | .uint64 n => some n

def toReading (oid : Octets) (res : Option Result) (errMsg : Octets) : Reading :=
  match res with
  | none => { oid, error := if errMsg = [] then noResult else errMsg }
  | some res =>
      let out : Reading := { oid, snmpType := res.type, error := errMsg }
      match res.value with
      | .text s =>
          if s ∈ errorSentinels then { out with error := s } else out
      | value =>
          if nonNumericTypes.any fun t => decide (t <:+: toLower res.type) then out
          else { out with value := numericValue value }

/-! ## What a batch answers -/

variable {g : Gosnmp} {m : MultiResult} {asked : List (List Octets × Round)}

/-- A result or an error, put under an OID. -/
def MultiResult.write (m : MultiResult) (x : Octets × Except Octets Result) : MultiResult :=
  match x.2 with
  | .ok r => m.answer x.1 r
  | .error err => m.fail x.1 err

/-- What the varbind at a position comes to. -/
def atPosition (g : Gosnmp) (p : SnmpPacket) (i : Nat) : Except Octets Result :=
  match p.vars[i]? with
  | none => .error noResult
  | some v => .ok (resultOf g v)

/-- What every OID comes to, in the order in which it is written. -/
def outcomes (g : Gosnmp) : List (List Octets × Round) → List (Octets × Except Octets Result)
  | [] => []
  | (chunk, round) :: rest =>
      match round.cancelled with
      | some err => (chunk ++ oidsOf rest).map fun oid => (oid, .error err)
      | none =>
          match round.reply with
          | .failed err =>
              chunk.map (fun oid => (oid, .error (octets "get failed: " ++ err))) ++ outcomes g rest
          | .packet p => chunk.zipIdx.map (fun x => (x.1, atPosition g p x.2)) ++ outcomes g rest

/-- **The loop writes one outcome for every OID.** -/
theorem getChunks_eq : getChunks g asked m = (outcomes g asked).foldl MultiResult.write m := by
  have htake : ∀ p m x, takeVarbind g p m x = m.write (x.1, atPosition g p x.2) := by
    intro p m x
    unfold takeVarbind MultiResult.write atPosition
    cases p.vars[x.2]? <;> rfl
  induction asked generalizing m with
  | nil => rfl
  | cons x rest ih =>
      obtain ⟨chunk, round⟩ := x
      unfold getChunks outcomes
      cases round.cancelled with
      | some err =>
          dsimp only
          rw [List.foldl_map]
          rfl
      | none =>
          cases round.reply with
          | failed err =>
              dsimp only
              rw [List.foldl_append, List.foldl_map, ih]
              rfl
          | packet p =>
              dsimp only
              rw [List.foldl_append, List.foldl_map, ih]
              congr 2
              funext m x
              exact htake p m x

theorem keys_outcomes : (outcomes g asked).map Prod.fst = oidsOf asked := by
  induction asked with
  | nil => rfl
  | cons x rest ih =>
      obtain ⟨chunk, round⟩ := x
      have hconst : ∀ (oids : List Octets) (o : Except Octets Result),
          (oids.map fun oid => (oid, o)).map Prod.fst = oids := by
        intro oids o
        rw [List.map_map]
        exact List.map_id oids
      have hoids : oidsOf ((chunk, round) :: rest) = chunk ++ oidsOf rest := rfl
      rw [hoids]
      unfold outcomes
      cases round.cancelled with
      | some err => exact hconst _ _
      | none =>
          cases round.reply with
          | failed err =>
              dsimp only
              rw [List.map_append, ih, hconst]
          | packet p =>
              dsimp only
              rw [List.map_append, ih, List.map_map]
              congr 1
              exact List.zipIdx_map_fst 0 chunk

/-- An OID that has a result or an error. -/
def MultiResult.Has (m : MultiResult) (oid : Octets) : Prop :=
  (m.results oid).isSome = true ∨ (m.errors oid).isSome = true

/-- One that has exactly what it was given: a result, or an error. -/
def MultiResult.Given (m : MultiResult) (oid : Octets) : Except Octets Result → Prop
  | .ok r => m.results oid = some r ∧ m.errors oid = none
  | .error err => m.results oid = none ∧ m.errors oid = some err

variable {oid : Octets}

namespace MultiResult

variable {x : Octets × Except Octets Result}

theorem write_other (h : oid ≠ x.1) :
    (m.write x).results oid = m.results oid ∧ (m.write x).errors oid = m.errors oid := by
  obtain ⟨o, r | r⟩ := x
  · exact ⟨rfl, if_neg h⟩
  · exact ⟨if_neg h, rfl⟩

theorem write_has (m : MultiResult) (x : Octets × Except Octets Result) : (m.write x).Has x.1 := by
  obtain ⟨o, r | r⟩ := x
  · exact .inr (by simp [write, fail])
  · exact .inl (by simp [write, answer])

theorem write_keeps (h : m.Has oid) :
    (m.write x).Has oid := by
  by_cases hoid : oid = x.1
  · rw [hoid]
    exact write_has m x
  · have hother := write_other (m := m) hoid
    rwa [Has, hother.1, hother.2]

theorem write_given (hr : m.results x.1 = none) (he : m.errors x.1 = none) :
    (m.write x).Given x.1 x.2 := by
  obtain ⟨o, r | r⟩ := x
  · exact ⟨hr, if_pos rfl⟩
  · exact ⟨if_pos rfl, he⟩

variable {ws : List (Octets × Except Octets Result)}

theorem foldl_write_has (h : m.Has oid ∨ oid ∈ ws.map Prod.fst) : (ws.foldl write m).Has oid := by
  induction ws generalizing m with
  | nil => exact h.resolve_right (by simp)
  | cons x ws ih =>
      rw [List.foldl_cons]
      refine ih ?_
      rcases h with h | h
      · exact .inl (write_keeps h)
      · rcases List.mem_cons.mp h with rfl | h
        · exact .inl (write_has m x)
        · exact .inr h

theorem foldl_write_other (h : oid ∉ ws.map Prod.fst) :
    (ws.foldl write m).results oid = m.results oid ∧
      (ws.foldl write m).errors oid = m.errors oid := by
  induction ws generalizing m with
  | nil => exact ⟨rfl, rfl⟩
  | cons x ws ih =>
      rw [List.map_cons, List.mem_cons, not_or] at h
      have hx := write_other (m := m) h.1
      have hws := ih (m := m.write x) h.2
      exact ⟨hws.1.trans hx.1, hws.2.trans hx.2⟩

/-- **An OID that is written once has what was written.** -/
theorem foldl_write_given (hnodup : (ws.map Prod.fst).Nodup)
    (hfresh : ∀ oid ∈ ws.map Prod.fst, m.results oid = none ∧ m.errors oid = none) (hx : x ∈ ws) :
    (ws.foldl write m).Given x.1 x.2 := by
  induction ws generalizing m with
  | nil => cases hx
  | cons y ws ih =>
      rw [List.map_cons, List.nodup_cons] at hnodup
      rw [List.foldl_cons]
      rcases List.mem_cons.mp hx with rfl | hx
      · have hown := hfresh x.1 (by simp)
        have hgiven := write_given (m := m) hown.1 hown.2
        have hlater := foldl_write_other (m := m.write x) hnodup.1
        revert hgiven
        unfold Given
        rw [hlater.1, hlater.2]
        exact id
      · refine ih hnodup.2 (fun oid hoid => ?_) hx
        have hne : oid ≠ y.1 := fun heq => hnodup.1 (heq ▸ hoid)
        have hother := write_other (m := m) hne
        have hmem : oid ∈ (y :: ws).map Prod.fst := List.mem_cons_of_mem _ hoid
        rw [hother.1, hother.2]
        exact hfresh oid hmem

end MultiResult

/-! ## Where a result comes from -/

/-- The chunks that are sent: those before the poll is cancelled. -/
def sent (connect : Option Octets) (asked : List (List Octets × Round)) :
    List (List Octets × Round) :=
  if connect.isSome then [] else asked.takeWhile fun x => x.2.cancelled.isNone

/-- A varbind stands where the OID stands in the chunk. -/
def StandsAt (chunk : List Octets) (p : SnmpPacket) (oid : Octets) (v : SnmpPDU) : Prop :=
  ∃ i : Nat, chunk[i]? = some oid ∧ p.vars[i]? = some v

/-- A varbind is named as the OID is, up to a leading dot. -/
def Named (v : SnmpPDU) (oid : Octets) : Prop := trimPrefix 46 v.name = trimPrefix 46 oid

/-- A result under an OID is made of a varbind of that name, of a reply to the chunk of the
OID that reports no error. -/
def Comes (g : Gosnmp) (sent : List (List Octets × Round)) (m : MultiResult) : Prop :=
  ∀ oid r, m.results oid = some r →
    ∃ x ∈ sent, oid ∈ x.1 ∧ ∃ p, x.2.reply = .packet p ∧ p.errorStatus = 0 ∧
      ∃ v ∈ p.vars, Named v oid ∧ r = resultOf g v

/-- A reply that reports an error gives no number, to no OID of its chunk. -/
def Refused (sent : List (List Octets × Round)) (m : MultiResult) : Prop :=
  ∀ x ∈ sent, ∀ p, x.2.reply = .packet p → p.errorStatus ≠ 0 → ∀ oid ∈ x.1,
    (∀ r, m.results oid = some r → numericValue r.value = none) ∧
      (toReading oid (m.results oid) ((m.errors oid).getD [])).value = none

/-- What the code relies on: a reply that has varbinds for its chunk reports no error, and
has each at the position of the OID it is named as. -/
def Aligned (sent : List (List Octets × Round)) : Prop :=
  ∀ x ∈ sent, ∀ p, x.2.reply = .packet p → ∀ oid v, StandsAt x.1 p oid v →
    p.errorStatus = 0 ∧ Named v oid

/-- The results that are written: one for every varbind at the position of an OID. -/
theorem mem_outcomes_ok {r : Result} : (oid, .ok r) ∈ outcomes g asked ↔
    ∃ x ∈ sent none asked, ∃ p, x.2.reply = .packet p ∧
      ∃ v, StandsAt x.1 p oid v ∧ r = resultOf g v := by
  induction asked with
  | nil => simp [outcomes, sent]
  | cons x rest ih =>
      obtain ⟨chunk, round⟩ := x
      unfold outcomes
      cases hcancelled : round.cancelled with
      | some err => simp [sent, hcancelled]
      | none =>
          have hsent : sent none ((chunk, round) :: rest) = (chunk, round) :: sent none rest := by
            simp [sent, hcancelled]
          rw [hsent]
          simp only [List.mem_cons, or_and_right, exists_or, exists_eq_left]
          cases hreply : round.reply with
          | failed err =>
              dsimp only
              rw [List.mem_append, ih]
              simp
          | packet p =>
              dsimp only
              rw [List.mem_append, ih]
              refine or_congr ?_ Iff.rfl
              constructor
              · intro h
                obtain ⟨⟨o, i⟩, hmem, heq⟩ := List.mem_map.mp h
                have hi := List.mem_zipIdx_iff_getElem?.mp hmem
                obtain ⟨rfl, hat⟩ := Prod.mk.inj heq
                unfold atPosition at hat
                cases hv : p.vars[i]? with
                | none =>
                    dsimp only at hat
                    rw [hv] at hat
                    cases hat
                | some v =>
                    dsimp only at hat
                    rw [hv] at hat
                    exact ⟨p, rfl, v, ⟨i, hi, hv⟩, (Except.ok.inj hat).symm⟩
              · rintro ⟨p', hp, v, ⟨i, hi, hv⟩, rfl⟩
                obtain rfl := Reply.packet.inj hp
                refine List.mem_map.mpr ⟨(oid, i), List.mem_zipIdx_iff_getElem?.mpr hi, ?_⟩
                unfold atPosition
                dsimp only
                rw [hv]

theorem getMany_eq (connect : Option Octets) :
    ∃ ws : List (Octets × Except Octets Result), ws.map Prod.fst = oidsOf asked ∧
      getMany g connect asked = ws.foldl MultiResult.write {} ∧
      ∀ oid r, (oid, .ok r) ∈ ws ↔
        ∃ x ∈ sent connect asked, ∃ p, x.2.reply = .packet p ∧
          ∃ v, StandsAt x.1 p oid v ∧ r = resultOf g v := by
  cases connect with
  | some err =>
      refine ⟨(oidsOf asked).map fun oid => (oid, .error err), ?_, ?_, fun oid r => ?_⟩
      · rw [List.map_map]
        exact List.map_id _
      · rw [List.foldl_map]
        rfl
      · simp [sent]
  | none => exact ⟨outcomes g asked, keys_outcomes, getChunks_eq, fun _ _ => mem_outcomes_ok⟩

theorem chunk_unique (hnodup : (oidsOf asked).Nodup) {connect : Option Octets}
    {x y : List Octets × Round} (hx : x ∈ sent connect asked) (hy : y ∈ sent connect asked)
    (hox : oid ∈ x.1) (hoy : oid ∈ y.1) : x = y := by
  have hsub : sent connect asked ⊆ asked := by
    unfold sent
    split
    · exact List.nil_subset _
    · exact (List.takeWhile_prefix _).subset
  by_contra hne
  have hdisjoint := (List.nodup_flatMap.mp hnodup).2
  have hsymm : Std.Symm fun a b : List Octets × Round => a.1.Disjoint b.1 :=
    ⟨fun _ _ h _ ha hb => h hb ha⟩
  exact List.Pairwise.forall (R := fun a b => a.1.Disjoint b.1) hdisjoint (hsub hx) (hsub hy) hne
    hox hoy

/--
**When a batched GET invents no reading.**

However the OIDs are split into chunks, and whatever each of them meets, every OID that was
asked for has a result or an error. Of distinct OIDs none has both. And every result comes
of a varbind of its own name in a reply without an error, and no reply with an error gives a
number, exactly when the replies are what the code takes them for: without an error where
they have varbinds at all, and in the order of the OIDs.
-/
theorem getMany_faithful_iff (g : Gosnmp) (connect : Option Octets)
    (asked : List (List Octets × Round)) :
    (∀ oid ∈ oidsOf asked, (getMany g connect asked).Has oid) ∧
      ((oidsOf asked).Nodup →
        (∀ oid ∈ oidsOf asked, ¬ (((getMany g connect asked).results oid).isSome = true ∧
          ((getMany g connect asked).errors oid).isSome = true)) ∧
        (Comes g (sent connect asked) (getMany g connect asked) ∧
          Refused (sent connect asked) (getMany g connect asked) ↔
            Aligned (sent connect asked))) := by
  obtain ⟨ws, hkeys, hrun, hok⟩ := @getMany_eq g asked connect
  rw [hrun]
  refine ⟨fun oid hoid => MultiResult.foldl_write_has (.inr (hkeys ▸ hoid)), fun hnodup => ?_⟩
  have hgiven : ∀ x ∈ ws, (ws.foldl MultiResult.write {}).Given x.1 x.2 := fun x hx =>
    MultiResult.foldl_write_given (hkeys.symm ▸ hnodup) (fun _ _ => ⟨rfl, rfl⟩) hx
  -- what is found under an OID was written there
  have hfound : ∀ oid r, (ws.foldl MultiResult.write {}).results oid = some r →
      (oid, .ok r) ∈ ws := by
    intro oid r hr
    by_cases hoid : oid ∈ ws.map Prod.fst
    · obtain ⟨⟨o, out⟩, hx, rfl⟩ := List.mem_map.mp hoid
      have hg := hgiven _ hx
      cases out with
      | ok r' =>
          obtain rfl := Option.some.inj (hr.symm.trans hg.1)
          exact hx
      | error err => exact absurd (hr.symm.trans hg.1) (by simp)
    · have hother := (MultiResult.foldl_write_other (m := {}) hoid).1
      exact absurd (hr.symm.trans hother) (by simp)
  refine ⟨fun oid hoid => ?_, ?_, ?_⟩
  · obtain ⟨⟨o, out⟩, hx, rfl⟩ := List.mem_map.mp (hkeys.symm ▸ hoid)
    have hg := hgiven _ hx
    cases out with
    | ok r => simp [hg.2]
    | error err => simp [hg.1]
  · rintro ⟨hcomes, _⟩ x hx p hp oid v ⟨i, hi, hv⟩
    have hwritten := (hok oid (resultOf g v)).mpr ⟨x, hx, p, hp, v, ⟨i, hi, hv⟩, rfl⟩
    obtain ⟨y, hy, hoid, q, hq, hstatus, u, _, hnamed, heq⟩ :=
      hcomes oid _ (hgiven _ hwritten).1
    obtain rfl := chunk_unique hnodup hx hy (List.mem_of_getElem? hi) hoid
    obtain rfl := Reply.packet.inj (hp.symm.trans hq)
    have hname : v.name = u.name := congrArg Result.oid heq
    refine ⟨hstatus, ?_⟩
    unfold Named at hnamed ⊢
    rwa [hname]
  · intro haligned
    constructor
    · intro oid r hr
      obtain ⟨x, hx, p, hp, v, ⟨i, hi, hv⟩, rfl⟩ := (hok oid r).mp (hfound oid r hr)
      obtain ⟨hstatus, hnamed⟩ := haligned x hx p hp oid v ⟨i, hi, hv⟩
      exact ⟨x, hx, List.mem_of_getElem? hi, p, hp, hstatus, v, List.mem_of_getElem? hv, hnamed, rfl⟩
    · intro x hx p hp hstatus oid hoid
      have hnone : (ws.foldl MultiResult.write {}).results oid = none := by
        rw [Option.eq_none_iff_forall_ne_some]
        intro r hr
        obtain ⟨y, hy, q, hq, v, ⟨i, hi, hv⟩, rfl⟩ := (hok oid r).mp (hfound oid r hr)
        obtain rfl := chunk_unique hnodup hx hy hoid (List.mem_of_getElem? hi)
        obtain rfl := Reply.packet.inj (hp.symm.trans hq)
        exact hstatus (haligned x hx p hp oid v ⟨i, hi, hv⟩).1
      rw [hnone]
      exact ⟨fun r hr => absurd hr (by simp), rfl⟩

/-! ## Replies the code does not expect -/

/-- `gosnmp` as far as the examples go: a number is itself, `Null` is zero. -/
def plainGosnmp : Gosnmp where
  typeName tag := if tag = 0x05 then octets "Null" else octets "Integer"
  toBigInt
    | .number n => n
    | _ => 0
  sprint _ := []
  isPrint _ := true

def sysUpTime : Octets := octets "1.3.6.1.2.1.1.3.0"

/-- A refusal, the varbinds of the request sent back with nothing in them. -/
def refusal : SnmpPacket where
  errorStatus := 5
  vars := [⟨octets ".1.3.6.1.2.1.1.3.0", 0x05, .null⟩]

theorem getMany_faithful_iff_uptime :
    let asked : List (List Octets × Round) :=
      [([sysUpTime], { reply := .packet ⟨0, [⟨octets ".1.3.6.1.2.1.1.3.0", 0x43, .number 7⟩]⟩ })]
    Comes plainGosnmp (sent none asked) (getMany plainGosnmp none asked) ∧
      Refused (sent none asked) (getMany plainGosnmp none asked) ↔ Aligned (sent none asked) :=
  ((getMany_faithful_iff plainGosnmp none _).2 (by decide)).2

/-- The readings of a poll that an agent refused: a zero. -/
theorem refusal_reads_zero :
    ¬ ∀ (g : Gosnmp) (connect : Option Octets) (asked : List (List Octets × Round)),
      (oidsOf asked).Nodup →
        Comes g (sent connect asked) (getMany g connect asked) ∧
          Refused (sent connect asked) (getMany g connect asked) := by
  intro hclaim
  have hrefused := (hclaim plainGosnmp none [([sysUpTime], { reply := .packet refusal })]
    (by decide)).2
  have hnone := (hrefused _ List.mem_cons_self refusal rfl (by decide) sysUpTime
    List.mem_cons_self).2
  revert hnone
  decide

end SnmpLens.Poll
