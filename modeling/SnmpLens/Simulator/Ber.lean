import SnmpLens.Lib.Ber

/-!
# What a message claims

`pkg/simulator/ber.go`: elements are read one after the other, the first error is kept, and
`peekV3` learns from them what an SNMPv3 message says of itself. The octets came from the
network. Every index and every slice here is one that can fail, `none` being Go's panic, and
none does; the words are 64 bits wide and shifted as the source shifts them.
-/

namespace SnmpLens.Simulator

open Utf8 Ber

/-- `b[i]`. -/
def octetAt (b : Octets) (i : Int) : Option UInt8 := if 0 ≤ i then b[i.toNat]? else none

/-- `b[i:j]`, held to the length of `b` where Go holds it to the capacity. -/
def slice (b : Octets) (i j : Int) : Option Octets :=
  if 0 ≤ i ∧ i ≤ j ∧ j ≤ b.length then some ((b.drop i.toNat).take (j - i).toNat) else none

/-- `errMalformed` and `errBadVersion`. -/
inductive BerError where
  | malformed
  | badVersion
deriving DecidableEq, Repr

def tagInteger : UInt8 := 0x02

def tagOctets : UInt8 := 0x04

def tagSequence : UInt8 := 0x30

/-- `element`, one TLV. -/
structure Element where
  tag : UInt8 := 0
  value : Octets := []
  next : Int := 0
deriving DecidableEq, Repr

/-- The length that begins with the octet `l`, whose digits are at `off`, and what follows it. -/
def readLength (b : Octets) (l : UInt8) (off : Int) : Option (Except BerError (BitVec 64 × Int)) :=
  if l &&& 0x80 ≠ 0 then do
    let size : Int := (l &&& 0x7f).toNat
    if size = 0 ∨ 4 < size ∨ b.length < off + size then return .error .malformed
    let digits ← slice b off (off + size)
    return .ok (digits.foldl shiftIn 0, off + size)
  else some (.ok (l.toBitVec.setWidth 64, off))

def readElement (b : Octets) (off : Int) : Option (Except BerError Element) := do
  if off < 0 ∨ b.length < off + 2 then return .error .malformed
  let tag ← octetAt b off
  if tag &&& 0x1f = 0x1f then return .error .malformed
  let l ← octetAt b (off + 1)
  match ← readLength b l (off + 2) with
  | .error e => return .error e
  | .ok (n, off) =>
    if n.toInt < 0 ∨ b.length - off < n.toInt then return .error .malformed
    let value ← slice b off (off + n.toInt)
    return .ok { tag, value, next := off + n.toInt }

structure Reader where
  b : Octets
  off : Int := 0
  err : Option BerError := none
deriving DecidableEq, Repr

namespace Reader

def element (r : Reader) : Option (Element × Reader) :=
  if r.err.isSome then some ({}, r)
  else do
    match ← readElement r.b r.off with
    | .error e => return ({}, { r with err := some e })
    | .ok e => return (e, { r with off := e.next })

/-- An error where there was none. -/
def refuse (r : Reader) : Reader := if r.err.isSome then r else { r with err := some .malformed }

/-- `sequence`: a reader of what is inside. -/
def sequence (r : Reader) : Option (Reader × Reader) := do
  let (e, r) ← r.element
  let r := if e.tag ≠ tagSequence then r.refuse else r
  return ({ b := e.value, err := r.err }, r)

def integer (r : Reader) : Option (Int × Reader) := do
  let (e, r) ← r.element
  if r.err.isSome then return (0, r)
  if e.tag ≠ tagInteger ∨ e.value.length = 0 ∨ 8 < e.value.length then return (0, r.refuse)
  let first ← octetAt e.value 0
  let rest ← slice e.value 1 e.value.length
  return ((rest.foldl shiftIn (first.toBitVec.signExtend 64)).toInt, r)

def octets (r : Reader) : Option (Octets × Reader) := do
  let (e, r) ← r.element
  return (e.value, if e.tag ≠ tagOctets then r.refuse else r)

end Reader

/-- `gosnmp.SnmpVersion`, of those `peekVersion` tells apart. -/
inductive SnmpVersion where
  | version1
  | version2c
  | version3
deriving DecidableEq, Repr

def peekVersion (msg : Octets) : Option (Except BerError SnmpVersion) := do
  let (body, _) ← Reader.sequence { b := msg }
  let (v, body) ← body.integer
  match body.err with
  | some err => return .error err
  | none =>
    if v = 0 then return .ok .version1
    else if v = 1 then return .ok .version2c
    else if v = 3 then return .ok .version3
    else return .error .badVersion

structure V3Header where
  msgID : UInt32
  flags : UInt8
  model : Int
  engineID : Octets
  boots : Int
  time : Int
  user : Octets
  requestID : UInt32 := 0
deriving DecidableEq, Repr

/-- The request-id of a scoped PDU that is not encrypted, and 0 where there is none to be had. -/
def peekRequestID (data : Element) : Option UInt32 :=
  if data.tag = tagSequence then do
    let (_, inner) ← Reader.octets { b := data.value }
    let (_, inner) ← inner.octets
    let (pdu, inner) ← inner.element
    if inner.err = none ∧ pdu.tag &&& 0xe0 = 0xa0 then
      let (id, _) ← Reader.integer { b := pdu.value }
      return if 0 ≤ id ∧ id ≤ 2147483647 then UInt32.ofNat id.toNat else 0
    else return 0
  else some 0

def peekV3 (msg : Octets) : Option (Except BerError V3Header) := do
  let (body, _) ← Reader.sequence { b := msg }
  let (version, body) ← body.integer
  let (global, body) ← body.sequence
  let (msgID, global) ← global.integer
  let (maxSize, global) ← global.integer
  let (flags, global) ← global.octets
  let (model, global) ← global.integer
  let (params, body) ← body.octets
  let (usm, _) ← Reader.sequence { b := params, err := body.err }
  let (engineID, usm) ← usm.octets
  let (boots, usm) ← usm.integer
  let (time, usm) ← usm.integer
  let (user, usm) ← usm.octets
  let (_, usm) ← usm.octets
  let (_, usm) ← usm.octets
  let (data, body) ← body.element
  match body.err <|> global.err <|> usm.err with
  | some err => return .error err
  | none =>
    -- the upper bounds are `math.MaxInt32`
    if version ≠ 3 ∨ msgID < 0 ∨ 2147483647 < msgID ∨ maxSize < 484 ∨ 2147483647 < maxSize
        ∨ flags.length ≠ 1 then return .error .malformed
    let first ← octetAt flags 0
    let requestID ← peekRequestID data
    return .ok { msgID := UInt32.ofNat msgID.toNat, flags := first, model, engineID, boots, time
                 user, requestID }

/-! ## One element -/

theorem octetAt_append (pre : Octets) (c : UInt8) (s : Octets) :
    octetAt (pre ++ c :: s) pre.length = some c := by
  unfold octetAt
  rw [if_pos (by omega)]
  simp

theorem slice_append (pre t u : Octets) :
    slice (pre ++ t ++ u) pre.length (pre.length + t.length) = some t := by
  unfold slice
  rw [if_pos ⟨by omega, by omega, by simp⟩]
  simp

theorem octets_of_integer (first : UInt8) (rest : Octets) :
    octetAt (first :: rest) 0 = some first ∧
      slice (first :: rest) 1 (first :: rest).length = some rest := by
  constructor
  · rfl
  · unfold slice
    rw [if_pos ⟨by omega, by simp, Int.le_refl _⟩]
    simp

/-- The first octet of a length says which form it has. -/
theorem length_forms (l : UInt8) :
    (l &&& 0x80 ≠ 0 → l = UInt8.ofNat (128 + (l &&& 0x7f).toNat)) ∧
      (¬ l &&& 0x80 ≠ 0 → l.toNat < 128) := by
  have h : ∀ n : Fin 256,
      (UInt8.ofNat n &&& 0x80 ≠ 0 →
        UInt8.ofNat n = UInt8.ofNat (128 + (UInt8.ofNat n &&& 0x7f).toNat)) ∧
      (¬ UInt8.ofNat n &&& 0x80 ≠ 0 → (UInt8.ofNat n).toNat < 128) := by decide +kernel
  have hl := h ⟨l.toNat, l.toNat_lt⟩
  rwa [UInt8.ofNat_toNat] at hl

theorem readLength_cases (pre s : Octets) (l : UInt8) :
    readLength (pre ++ s) l pre.length = some (.error .malformed) ∨
      ∃ n digits u, readLength (pre ++ s) l pre.length = some (.ok (n, (pre ++ digits).length)) ∧
        s = digits ++ u ∧ 0 ≤ n.toInt ∧ Definite 4 n.toInt.toNat (l :: digits) := by
  unfold readLength
  by_cases hlong : l &&& 0x80 ≠ 0
  · rw [if_pos hlong]
    obtain ⟨size, hsize⟩ : ∃ size, (l &&& 0x7f).toNat = size := ⟨_, rfl⟩
    have hl := (length_forms l).1 hlong
    rw [hsize] at hl
    dsimp only
    rw [hsize]
    by_cases hbad : (size : Int) = 0 ∨ 4 < (size : Int) ∨ ((pre ++ s).length : Int) < pre.length + size
    · left
      rw [if_pos hbad]
      rfl
    · right
      obtain ⟨hpos, hfour, hroom⟩ : size ≠ 0 ∧ size ≤ 4 ∧ size ≤ s.length := by
        rw [List.length_append] at hbad
        omega
      obtain ⟨digits, rest, rfl, rfl⟩ : ∃ digits rest, s = digits ++ rest ∧ digits.length = size :=
        ⟨s.take size, s.drop size, (List.take_append_drop size s).symm, List.length_take_of_le hroom⟩
      have hslice := slice_append pre digits rest
      rw [List.append_assoc] at hslice
      have hvalue : (digits.foldl shiftIn 0).toInt = base256 0 digits :=
        toInt_foldl_shiftIn (m := 0) ⟨by decide, by decide⟩ (by omega)
      have hnonneg := (base256_bounds 0 digits).1
      rw [Int.zero_mul] at hnonneg
      refine ⟨digits.foldl shiftIn 0, digits, rest, ?_, rfl, by omega, ?_⟩
      · rw [if_neg hbad, hslice, List.length_append]
        rfl
      · rw [hl, hvalue]
        exact .long (by omega) hfour (by omega)
  · right
    have hshort := (length_forms l).2 hlong
    have hvalue : (l.toBitVec.setWidth 64).toInt = l.toNat := by
      rw [BitVec.toInt_setWidth, UInt8.toNat_toBitVec]
      exact Int.bmod_eq_of_le (by omega) (by omega)
    refine ⟨l.toBitVec.setWidth 64, [], s, ?_, rfl, by omega, ?_⟩
    · rw [if_neg hlong, List.append_nil]
    · rw [hvalue, Int.toNat_natCast]
      have h : Definite 4 l.toNat [UInt8.ofNat l.toNat] := .short hshort
      rwa [UInt8.ofNat_toNat] at h

theorem readLength_definite {n : Nat} {l : UInt8} {digits : Octets} (h : Definite 4 n (l :: digits))
    (pre u : Octets) : ∃ m : BitVec 64, m.toInt = n ∧
      readLength (pre ++ digits ++ u) l pre.length = some (.ok (m, (pre ++ digits).length)) := by
  cases h with
  | short hn =>
      have hlow : ∀ n : Fin 128, ¬ UInt8.ofNat n &&& 0x80 ≠ 0 := by decide
      have hnat : (UInt8.ofNat n).toNat = n := UInt8.toNat_ofNat_of_lt' (Nat.lt_trans hn (by decide))
      refine ⟨(UInt8.ofNat n).toBitVec.setWidth 64, ?_, ?_⟩
      · rw [BitVec.toInt_setWidth, UInt8.toNat_toBitVec, hnat]
        exact Int.bmod_eq_of_le (by omega) (by omega)
      · unfold readLength
        rw [if_neg (hlow ⟨n, hn⟩), List.append_nil]
  | long hpos hmost hvalue =>
      have hhigh : ∀ k : Fin 5, UInt8.ofNat (128 + k) &&& 0x80 ≠ 0 ∧
          (UInt8.ofNat (128 + k) &&& 0x7f).toNat = k := by decide
      obtain ⟨hbit, hsize⟩ := hhigh ⟨digits.length, by omega⟩
      dsimp only at hbit hsize
      refine ⟨digits.foldl shiftIn 0, ?_, ?_⟩
      · rw [← hvalue]
        exact toInt_foldl_shiftIn (m := 0) ⟨by decide, by decide⟩ (by omega)
      · have hgood : ¬ ((digits.length : Int) = 0 ∨ 4 < (digits.length : Int) ∨
            ((pre ++ digits ++ u).length : Int) < pre.length + digits.length) := by
          rw [List.length_append, List.length_append]
          omega
        unfold readLength
        rw [if_pos hbit]
        dsimp only
        rw [hsize, if_neg hgood, slice_append, List.length_append]
        rfl

theorem readElement_cases (b : Octets) (off : Int) :
    readElement b off = some (.error .malformed) ∨
      ∃ e pre t u, readElement b off = some (.ok e) ∧ b = pre ++ t ++ u ∧ off = pre.length ∧
        e.next = (pre ++ t).length ∧ Tlv 4 e.tag e.value t ∧ e.tag &&& 0x1f ≠ 0x1f := by
  unfold readElement
  by_cases hout : off < 0 ∨ b.length < off + 2
  · left
    rw [if_pos hout]
    rfl
  · rw [if_neg hout]
    obtain ⟨k, rfl⟩ : ∃ k : Nat, off = k := ⟨off.toNat, by omega⟩
    obtain ⟨pre, s, rfl, rfl⟩ : ∃ pre s, b = pre ++ s ∧ pre.length = k :=
      ⟨b.take k, b.drop k, (List.take_append_drop k b).symm, List.length_take_of_le (by omega)⟩
    match s with
    | [] => simp at hout
    | [_] => simp at hout
    | tag :: l :: s =>
        have hsecond : octetAt (pre ++ tag :: l :: s) (pre.length + 1) = some l := by
          have h := octetAt_append (pre ++ [tag]) l s
          simpa using h
        simp only [octetAt_append, hsecond, Option.bind_eq_bind, Option.bind_some]
        by_cases hmulti : tag &&& 0x1f = 0x1f
        · left
          rw [if_pos hmulti]
          rfl
        · rw [if_neg hmulti]
          have hlength := readLength_cases (pre ++ [tag, l]) s l
          have hshape : pre ++ [tag, l] ++ s = pre ++ tag :: l :: s := by simp
          have hoff : ((pre ++ [tag, l]).length : Int) = pre.length + 2 := by simp
          rw [hshape, hoff] at hlength
          rcases hlength with h | ⟨n, digits, u, h, rfl, hnonneg, hdef⟩
          · left
            simp only [h, Option.bind_some]
            rfl
          · simp only [h, Option.bind_some]
            obtain ⟨size, hsize⟩ : ∃ size : Nat, n.toInt = size := ⟨n.toInt.toNat, by omega⟩
            rw [hsize, Int.toNat_natCast] at hdef
            rw [hsize]
            by_cases hbad : (size : Int) < 0 ∨
                ((pre ++ tag :: l :: (digits ++ u)).length : Int)
                  - (pre ++ [tag, l] ++ digits).length < size
            · left
              rw [if_pos hbad]
              rfl
            · right
              have hroom : size ≤ u.length := by
                simp only [List.length_append, List.length_cons] at hbad
                omega
              obtain ⟨value, rest, rfl, rfl⟩ : ∃ value rest, u = value ++ rest ∧ value.length = size :=
                ⟨u.take size, u.drop size, (List.take_append_drop size u).symm,
                  List.length_take_of_le hroom⟩
              have hslice := slice_append (pre ++ [tag, l] ++ digits) value rest
              have hbuffer : pre ++ tag :: l :: (digits ++ (value ++ rest))
                  = pre ++ [tag, l] ++ digits ++ value ++ rest := by simp
              rw [if_neg hbad, hbuffer, hslice]
              refine ⟨_, pre, tag :: (l :: digits) ++ value, rest, rfl, ?_, rfl, ?_,
                ⟨l :: digits, hdef, rfl⟩, hmulti⟩
              · simp
              · simp only [List.length_append, List.length_cons, List.length_nil]
                omega

/-- **An element is read where one is, and nowhere else** (`readElement_cases`). -/
theorem readElement_tlv {tag : UInt8} {value t : Octets} (ht : Tlv 4 tag value t)
    (htag : tag &&& 0x1f ≠ 0x1f) (pre u : Octets) :
    readElement (pre ++ t ++ u) pre.length
      = some (.ok { tag, value, next := (pre ++ t).length }) := by
  obtain ⟨length, hdef, rfl⟩ := ht
  obtain ⟨l, digits, rfl⟩ : ∃ l digits, length = l :: digits := by
    cases hdef with
    | short => exact ⟨_, _, rfl⟩
    | long => exact ⟨_, _, rfl⟩
  obtain ⟨n, hn, hlength⟩ := readLength_definite hdef (pre ++ [tag, l]) (value ++ u)
  have hshape : pre ++ (tag :: (l :: digits) ++ value) ++ u
      = pre ++ tag :: l :: (digits ++ value ++ u) := by simp
  have hinner : pre ++ [tag, l] ++ digits ++ (value ++ u)
      = pre ++ tag :: l :: (digits ++ value ++ u) := by simp
  have hoff : ((pre ++ [tag, l]).length : Int) = pre.length + 2 := by simp
  have hsecond : octetAt (pre ++ tag :: l :: (digits ++ value ++ u)) (pre.length + 1) = some l := by
    have h := octetAt_append (pre ++ [tag]) l (digits ++ value ++ u)
    simpa using h
  have hslice := slice_append (pre ++ [tag, l] ++ digits) value u
  rw [List.append_assoc _ value u, hinner] at hslice
  rw [hinner, hoff] at hlength
  unfold readElement
  rw [hshape, if_neg (by simp only [List.length_append, List.length_cons]; omega)]
  simp only [octetAt_append, hsecond, Option.bind_eq_bind, Option.bind_some]
  rw [if_neg htag]
  simp only [hlength, Option.bind_some, hn]
  rw [if_neg (by simp only [List.length_append, List.length_cons, List.length_nil]; omega), hslice]
  have hnext : ((pre ++ [tag, l] ++ digits).length : Int) + value.length
      = (pre ++ (tag :: l :: digits ++ value)).length := by
    simp only [List.length_append, List.length_cons, List.length_nil]
    omega
  rw [hnext]
  rfl

/-! ## Steps of a reader -/

theorem two_le_of_tlv {most : Nat} {tag : UInt8} {value t : Octets} (h : Tlv most tag value t) :
    2 ≤ t.length := by
  obtain ⟨length, hdef, rfl⟩ := h
  cases hdef with
  | short => simp
  | long => simp

namespace Reader

/-- A step goes forward in the same octets, and not past their end; one that is no error takes
two octets at least. -/
structure Step (r r' : Reader) : Prop where
  b : r'.b = r.b
  forward : r.off ≤ r'.off
  within : r.off ≤ r.b.length → r'.off ≤ r.b.length
  consumes : r'.err = none → r.err = none ∧ r.off + 2 ≤ r'.off

theorem Step.refuse {r r' : Reader} (h : Step r r') : Step r r'.refuse := by
  unfold Reader.refuse
  split
  · exact h
  · exact ⟨h.b, h.forward, h.within, fun he => absurd he (by simp)⟩

theorem element_step (r : Reader) : ∃ e r', r.element = some (e, r') ∧ Step r r' := by
  unfold element
  by_cases herr : r.err.isSome
  · refine ⟨{}, r, if_pos herr, rfl, Int.le_refl _, id, fun h => ?_⟩
    rw [h] at herr
    cases herr
  · rw [if_neg herr]
    rcases readElement_cases r.b r.off with h | ⟨e, pre, t, u, h, hb, hoff, hnext, htlv, -⟩
    · refine ⟨{}, { r with err := some .malformed }, ?_, rfl, Int.le_refl _, id, ?_⟩
      · simp only [h, Option.bind_eq_bind, Option.bind_some]
        rfl
      · intro h
        cases h
    · have htwo := two_le_of_tlv htlv
      refine ⟨e, { r with off := e.next }, ?_, rfl, ?_, fun _ => ?_, fun _ => ⟨?_, ?_⟩⟩
      · simp only [h, Option.bind_eq_bind, Option.bind_some]
        rfl
      · show r.off ≤ e.next
        rw [hoff, hnext, List.length_append]
        omega
      · show e.next ≤ r.b.length
        rw [hnext, hb]
        simp only [List.length_append]
        omega
      · exact Option.not_isSome_iff_eq_none.mp herr
      · show r.off + 2 ≤ e.next
        rw [hoff, hnext, List.length_append]
        omega

theorem sequence_step (r : Reader) : ∃ inner r', r.sequence = some (inner, r') ∧ Step r r' := by
  obtain ⟨e, r', h, hstep⟩ := r.element_step
  unfold sequence
  simp only [h, Option.bind_eq_bind, Option.bind_some]
  refine ⟨_, _, rfl, ?_⟩
  split
  · exact hstep.refuse
  · exact hstep

theorem octets_step (r : Reader) : ∃ v r', r.octets = some (v, r') ∧ Step r r' := by
  obtain ⟨e, r', h, hstep⟩ := r.element_step
  unfold octets
  simp only [h, Option.bind_eq_bind, Option.bind_some]
  refine ⟨_, _, rfl, ?_⟩
  split
  · exact hstep.refuse
  · exact hstep

theorem integer_step (r : Reader) : ∃ v r', r.integer = some (v, r') ∧ Step r r' := by
  obtain ⟨e, r', h, hstep⟩ := r.element_step
  unfold integer
  simp only [h, Option.bind_eq_bind, Option.bind_some]
  split
  · exact ⟨0, r', rfl, hstep⟩
  · split
    · exact ⟨0, r'.refuse, rfl, hstep.refuse⟩
    · rename_i hshape
      obtain ⟨first, rest, hvalue⟩ : ∃ first rest, e.value = first :: rest :=
        List.exists_cons_of_length_pos (by omega)
      obtain ⟨hfirst, hrest⟩ := octets_of_integer first rest
      rw [hvalue, hfirst, Option.bind_some, hrest]
      exact ⟨_, r', rfl, hstep⟩

/-- What may be read next. -/
inductive Read where
  | element
  | sequence
  | integer
  | octets
deriving DecidableEq, Repr

/-- The reader after one read. -/
def after (r : Reader) : Read → Option Reader
  | .element => r.element.map Prod.snd
  | .sequence => r.sequence.map Prod.snd
  | .integer => r.integer.map Prod.snd
  | .octets => r.octets.map Prod.snd

theorem after_step (r : Reader) (read : Read) : ∃ r', r.after read = some r' ∧ Step r r' := by
  cases read with
  | element =>
      obtain ⟨e, r', h, hstep⟩ := r.element_step
      exact ⟨r', by rw [after, h]; rfl, hstep⟩
  | sequence =>
      obtain ⟨inner, r', h, hstep⟩ := r.sequence_step
      exact ⟨r', by rw [after, h]; rfl, hstep⟩
  | integer =>
      obtain ⟨v, r', h, hstep⟩ := r.integer_step
      exact ⟨r', by rw [after, h]; rfl, hstep⟩
  | octets =>
      obtain ⟨v, r', h, hstep⟩ := r.octets_step
      exact ⟨r', by rw [after, h]; rfl, hstep⟩

/--
**No run of reads leaves the octets**, and one without an error has taken two of them each time.

By induction on the run, from any place in the octets.
-/
theorem run_within {r : Reader} (hr : 0 ≤ r.off ∧ r.off ≤ r.b.length) (reads : List Read) :
    ∃ r', reads.foldlM after r = some r' ∧ r'.b = r.b ∧ 0 ≤ r'.off ∧ r'.off ≤ r'.b.length ∧
      (r'.err = none → r.err = none ∧ r.off + 2 * reads.length ≤ r'.off) := by
  induction reads generalizing r with
  | nil => exact ⟨r, rfl, rfl, hr.1, hr.2, fun herr => ⟨herr, by simp⟩⟩
  | cons read reads ih =>
      obtain ⟨r', h, hstep⟩ := r.after_step read
      have hforward := hstep.forward
      have hwithin := hstep.within hr.2
      obtain ⟨r'', hrun, hb, hpos, hend, hconsumes⟩ :=
        ih (r := r') ⟨by omega, by rw [hstep.b]; exact hwithin⟩
      refine ⟨r'', ?_, hb.trans hstep.b, hpos, hend, fun herr => ?_⟩
      · rw [List.foldlM_cons, h]
        exact hrun
      · obtain ⟨hkept, hrest⟩ := hconsumes herr
        obtain ⟨hfirst, htwo⟩ := hstep.consumes hkept
        refine ⟨hfirst, ?_⟩
        rw [List.length_cons]
        omega

theorem isSome_element (r : Reader) : r.element.isSome := by
  obtain ⟨e, r', h, -⟩ := r.element_step
  rw [h]
  rfl

theorem isSome_sequence (r : Reader) : r.sequence.isSome := by
  obtain ⟨inner, r', h, -⟩ := r.sequence_step
  rw [h]
  rfl

theorem isSome_integer (r : Reader) : r.integer.isSome := by
  obtain ⟨v, r', h, -⟩ := r.integer_step
  rw [h]
  rfl

theorem isSome_octets (r : Reader) : r.octets.isSome := by
  obtain ⟨v, r', h, -⟩ := r.octets_step
  rw [h]
  rfl

end Reader

theorem isSome_bind {α β : Type} {x : Option α} {f : α → Option β} (hx : x.isSome)
    (hf : ∀ a, (f a).isSome) : (x >>= f).isSome := by
  obtain ⟨a, rfl⟩ := Option.isSome_iff_exists.mp hx
  exact hf a

theorem bind_of_some {α β : Type} {x : Option α} {a : α} {f : α → Option β} (h : x = some a) :
    (x >>= f) = f a := by
  rw [h]
  rfl

open Reader in
theorem isSome_peekRequestID (data : Element) : (peekRequestID data).isSome := by
  unfold peekRequestID
  split
  · refine isSome_bind (isSome_octets _) fun _ => isSome_bind (isSome_octets _) fun _ =>
      isSome_bind (isSome_element _) fun _ => ?_
    dsimp only
    split
    · exact isSome_bind (isSome_integer _) fun _ => rfl
    · rfl
  · rfl

open Reader in
theorem isSome_peekVersion (msg : Octets) : (peekVersion msg).isSome := by
  refine isSome_bind (isSome_sequence _) fun _ => isSome_bind (isSome_integer _) fun _ => ?_
  dsimp only
  split
  · rfl
  · split
    · rfl
    · split
      · rfl
      · split <;> rfl

open Reader in
theorem isSome_peekV3 (msg : Octets) : (peekV3 msg).isSome := by
  refine isSome_bind (isSome_sequence _) fun _ => isSome_bind (isSome_integer _) fun _ =>
    isSome_bind (isSome_sequence _) fun _ => isSome_bind (isSome_integer _) fun _ =>
    isSome_bind (isSome_integer _) fun _ => isSome_bind (isSome_octets _) fun flags =>
    isSome_bind (isSome_integer _) fun _ => isSome_bind (isSome_octets _) fun _ =>
    isSome_bind (isSome_sequence _) fun _ => isSome_bind (isSome_octets _) fun _ =>
    isSome_bind (isSome_integer _) fun _ => isSome_bind (isSome_integer _) fun _ =>
    isSome_bind (isSome_octets _) fun _ => isSome_bind (isSome_octets _) fun _ =>
    isSome_bind (isSome_octets _) fun _ => isSome_bind (isSome_element _) fun _ => ?_
  dsimp only
  split
  · rfl
  · split
    · rfl
    · rename_i hranges
      have hone : flags.1.length = 1 := by
        by_contra hne
        exact hranges (by simp [hne])
      obtain ⟨flag, hflag⟩ := List.length_eq_one_iff.mp hone
      have hat : (octetAt flags.1 0).isSome := by
        rw [hflag]
        rfl
      exact isSome_bind hat fun _ => isSome_bind (isSome_peekRequestID _) fun _ => rfl

end SnmpLens.Simulator
