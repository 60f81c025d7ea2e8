import SnmpLens.Simulator.Ber

/-!
# What a message says of itself

The grammar of an SNMPv3 message with the parameters of the user-based security model, over
the encodings of `Lib/Ber`. `peekV3` reads from a message of that grammar what it says, as long
as no length takes more than four octets after its first (`peekV3_reads`); the grammar would let
it, and such a message is refused as malformed.
-/

namespace SnmpLens.Simulator

open Utf8 Ber

inductive ScopedPduData where
  | plaintext (contents : Octets)
  | encrypted (octets : Octets)
deriving DecidableEq, Repr

/-- An SNMPv3 message; the ranges are those its fields have in ASN.1. -/
structure V3Message where
  msgID : Int
  maxSize : Int
  flags : UInt8
  model : Int
  engineID : Octets
  boots : Int
  time : Int
  user : Octets
  authParams : Octets
  privParams : Octets
  data : ScopedPduData
  msgID_range : 0 ≤ msgID ∧ msgID ≤ 2147483647
  maxSize_range : 484 ≤ maxSize ∧ maxSize ≤ 2147483647
  model_range : 1 ≤ model ∧ model ≤ 2147483647
  boots_range : 0 ≤ boots ∧ boots ≤ 2147483647
  time_range : 0 ≤ time ∧ time ≤ 2147483647

def ScopedPduData.Encoded (most : Nat) : ScopedPduData → Octets → Prop
  | .plaintext contents => Tlv most 0x30 contents
  | .encrypted octets => OctetString most octets

namespace V3Message

/-- `msgGlobalData`. -/
def GlobalData (most : Nat) (m : V3Message) : Octets → Prop :=
  Sequence most
    [Integer most m.msgID, Integer most m.maxSize, OctetString most [m.flags], Integer most m.model]

/-- `UsmSecurityParameters`. -/
def SecurityParameters (most : Nat) (m : V3Message) : Octets → Prop :=
  Sequence most
    [OctetString most m.engineID, Integer most m.boots, Integer most m.time, OctetString most m.user,
      OctetString most m.authParams, OctetString most m.privParams]

/-- The octets are the message, with definite lengths of at most so many octets. -/
def Encoded (most : Nat) (m : V3Message) : Octets → Prop :=
  Sequence most
    [Integer most 3, m.GlobalData most,
      fun s => ∃ params, m.SecurityParameters most params ∧ OctetString most params s,
      m.data.Encoded most]

end V3Message

/-- The header has what the message says. -/
structure V3Header.Says (h : V3Header) (m : V3Message) : Prop where
  msgID : h.msgID.toNat = m.msgID
  flags : h.flags = m.flags
  model : h.model = m.model
  engineID : h.engineID = m.engineID
  boots : h.boots = m.boots
  time : h.time = m.time
  user : h.user = m.user

variable {Ps : List (Octets → Prop)}

namespace Reader

/-! ## A reader in front of what it reads -/

/-- No error yet, and `s` is what is left. -/
def Front (r : Reader) (s : Octets) : Prop :=
  r.err = none ∧ ∃ pre, r.b = pre ++ s ∧ r.off = pre.length

variable {r : Reader} {t u : Octets}

theorem element_front {tag : UInt8} {v : Octets} (hr : r.Front (t ++ u)) (ht : Tlv 4 tag v t)
    (htag : tag &&& 0x1f ≠ 0x1f) :
    ∃ next r', r.element = some ({ tag, value := v, next }, r') ∧ r'.Front u := by
  obtain ⟨herr, pre, hb, hoff⟩ := hr
  have hread := readElement_tlv ht htag pre u
  rw [List.append_assoc, ← hb, ← hoff] at hread
  refine ⟨(pre ++ t).length, { r with off := (pre ++ t).length }, ?_, herr, pre ++ t, ?_, rfl⟩
  · unfold element
    rw [if_neg (by simp [herr])]
    simp only [hread, Option.bind_eq_bind, Option.bind_some]
    rfl
  · rw [List.append_assoc]
    exact hb

theorem octets_front {v : Octets} (hr : r.Front (t ++ u)) (ht : OctetString 4 v t) :
    ∃ r', r.octets = some (v, r') ∧ r'.Front u := by
  obtain ⟨next, r', h, hfront⟩ := element_front hr ht (by decide)
  refine ⟨r', ?_, hfront⟩
  unfold octets
  simp only [h, Option.bind_eq_bind, Option.bind_some]
  rfl

theorem sequence_front (hr : r.Front (t ++ u)) (ht : Sequence 4 Ps t) :
    ∃ inner contents r', r.sequence = some (inner, r') ∧ inner.Front contents ∧ Parts Ps contents ∧
      r'.Front u := by
  obtain ⟨contents, hparts, ht⟩ := ht
  obtain ⟨next, r', h, hfront⟩ := element_front hr ht (by decide)
  refine ⟨{ b := contents, err := r'.err }, contents, r', ?_, ⟨hfront.1, [], rfl, rfl⟩, hparts, hfront⟩
  unfold sequence
  simp only [h, Option.bind_eq_bind, Option.bind_some]
  rfl

theorem sequence_start {s : Octets} (hs : Sequence 4 Ps s) :
    ∃ inner contents r', sequence { b := s } = some (inner, r') ∧ inner.Front contents ∧
      Parts Ps contents := by
  have hstart : Front { b := s } (s ++ []) := ⟨rfl, [], (List.append_nil s).symm, rfl⟩
  obtain ⟨inner, contents, r', h, hfront, hparts, -⟩ := sequence_front hstart hs
  exact ⟨inner, contents, r', h, hfront, hparts⟩

theorem integer_front {v : Int} (hr : r.Front (t ++ u)) (ht : Integer 4 v t)
    (hv : -9223372036854775808 ≤ v ∧ v < 9223372036854775808) :
    ∃ r', r.integer = some (v, r') ∧ r'.Front u := by
  obtain ⟨contents, hshort, rfl, ht⟩ := ht
  obtain ⟨next, r', h, hfront⟩ := element_front hr ht (by decide)
  have hlength := length_le_of_shortest hshort hv
  refine ⟨r', ?_, hfront⟩
  cases contents with
  | nil => exact absurd hshort id
  | cons first rest =>
      obtain ⟨hfirst, hrest⟩ := octets_of_integer first rest
      rw [List.length_cons] at hlength
      have hsign : (first.toBitVec.signExtend 64).toInt = signed first :=
        BitVec.toInt_signExtend_of_le (by decide)
      have hsmall : -2 ^ 7 ≤ signed first ∧ signed first < 2 ^ 7 := by
        have hbound := first.toNat_lt
        rw [signed_eq]
        split <;> omega
      have hvalue : (rest.foldl shiftIn (first.toBitVec.signExtend 64)).toInt = twos (first :: rest) := by
        rw [toInt_foldl_shiftIn (m := 7) (by rwa [hsign]) (by omega), hsign]
        rfl
      unfold integer
      simp only [h, Option.bind_eq_bind, Option.bind_some]
      rw [if_neg (by simp [hfront.1]), if_neg (by simp [tagInteger]; omega), hfirst, Option.bind_some,
        hrest, Option.bind_some, hvalue]
      rfl

end Reader

open Reader in
theorem peekV3_encoded {m : V3Message} {s : Octets} (hs : m.Encoded 4 s) :
    ∃ h, peekV3 s = some (.ok h) ∧ h.Says m := by
  have hword : ∀ v : Int, 0 ≤ v ∧ v ≤ 2147483647 →
      -9223372036854775808 ≤ v ∧ v < 9223372036854775808 := fun v hv => by omega
  obtain ⟨body, c, rest, hbody, hfront, hparts⟩ := sequence_start hs
  obtain ⟨versionT, u₁, hversionT, ⟨globalT, u₂, hglobalT, ⟨paramsT, u₃, ⟨params, husmT, hparamsT⟩,
    ⟨dataT, u₄, hdataT, hend, rfl⟩, rfl⟩, rfl⟩, rfl⟩ := hparts
  -- the version and the global data
  obtain ⟨body₁, hversion, hfront₁⟩ := integer_front hfront hversionT (by decide)
  obtain ⟨global, g, body₂, hglobal, hgfront, hgparts, hfront₂⟩ := sequence_front hfront₁ hglobalT
  obtain ⟨idT, v₁, hidT, ⟨sizeT, v₂, hsizeT, ⟨flagsT, v₃, hflagsT, ⟨modelT, v₄, hmodelT, -, rfl⟩, rfl⟩,
    rfl⟩, rfl⟩ := hgparts
  obtain ⟨global₁, hid, hg₁⟩ := integer_front hgfront hidT (hword _ m.msgID_range)
  obtain ⟨global₂, hsize, hg₂⟩ := integer_front hg₁ hsizeT (by have h := m.maxSize_range; omega)
  obtain ⟨global₃, hflags, hg₃⟩ := octets_front hg₂ hflagsT
  obtain ⟨global₄, hmodel, hg₄⟩ := integer_front hg₃ hmodelT (by have h := m.model_range; omega)
  -- the parameters, and what is inside them
  obtain ⟨body₃, hparams, hfront₃⟩ := octets_front hfront₂ hparamsT
  obtain ⟨usm, p, after, husm, hpfront, hpparts⟩ := sequence_start husmT
  obtain ⟨engineT, w₁, hengineT, ⟨bootsT, w₂, hbootsT, ⟨timeT, w₃, htimeT, ⟨userT, w₄, huserT, ⟨authT, w₅,
    hauthT, ⟨privT, w₆, hprivT, -, rfl⟩, rfl⟩, rfl⟩, rfl⟩, rfl⟩, rfl⟩ := hpparts
  obtain ⟨usm₁, hengine, hp₁⟩ := octets_front hpfront hengineT
  obtain ⟨usm₂, hboots, hp₂⟩ := integer_front hp₁ hbootsT (hword _ m.boots_range)
  obtain ⟨usm₃, htime, hp₃⟩ := integer_front hp₂ htimeT (hword _ m.time_range)
  obtain ⟨usm₄, huser, hp₄⟩ := octets_front hp₃ huserT
  obtain ⟨usm₅, hauth, hp₅⟩ := octets_front hp₄ hauthT
  obtain ⟨usm₆, hpriv, hp₆⟩ := octets_front hp₅ hprivT
  -- the scoped PDU, which gives up a request-id or none
  obtain ⟨data, body₄, hdata, hfront₄⟩ : ∃ data r', body₃.element = some (data, r') ∧ r'.Front u₄ := by
    cases hkind : m.data with
    | plaintext contents =>
        rw [hkind] at hdataT
        obtain ⟨next, r', h, hfront⟩ := element_front hfront₃ hdataT (by decide)
        exact ⟨_, r', h, hfront⟩
    | encrypted octets =>
        rw [hkind] at hdataT
        obtain ⟨next, r', h, hfront⟩ := element_front hfront₃ hdataT (by decide)
        exact ⟨_, r', h, hfront⟩
  obtain ⟨requestID, hrequest⟩ := Option.isSome_iff_exists.mp (isSome_peekRequestID data)
  have hranges : ¬ ((3 : Int) ≠ 3 ∨ m.msgID < 0 ∨ 2147483647 < m.msgID ∨ m.maxSize < 484
      ∨ 2147483647 < m.maxSize ∨ [m.flags].length ≠ 1) := by
    have hid := m.msgID_range
    have hsize := m.maxSize_range
    simp only [List.length_cons, List.length_nil]
    omega
  refine ⟨{ msgID := UInt32.ofNat m.msgID.toNat, flags := m.flags, model := m.model
            engineID := m.engineID, boots := m.boots, time := m.time, user := m.user, requestID }, ?_,
    ?_, rfl, rfl, rfl, rfl, rfl, rfl⟩
  · unfold peekV3
    refine (bind_of_some hbody).trans <| (bind_of_some hversion).trans <|
      (bind_of_some hglobal).trans <| (bind_of_some hid).trans <| (bind_of_some hsize).trans <|
      (bind_of_some hflags).trans <| (bind_of_some hmodel).trans <| (bind_of_some hparams).trans ?_
    dsimp only
    rw [hfront₃.1]
    refine (bind_of_some husm).trans <| (bind_of_some hengine).trans <| (bind_of_some hboots).trans <|
      (bind_of_some htime).trans <| (bind_of_some huser).trans <| (bind_of_some hauth).trans <|
      (bind_of_some hpriv).trans <| (bind_of_some hdata).trans ?_
    dsimp only
    rw [hfront₄.1, hg₄.1, hp₆.1]
    show (if _ then _ else _) = _
    rw [if_neg hranges]
    exact (bind_of_some rfl).trans (bind_of_some hrequest)
  · have hid := m.msgID_range
    have hfits : m.msgID.toNat < 4294967296 := by omega
    show ((UInt32.ofNat m.msgID.toNat).toNat : Int) = m.msgID
    rw [UInt32.toNat_ofNat_of_lt' hfits]
    omega

/--
**Reading never leaves the octets, and reads from a message what it says.**

Any run of reads stays within them and takes two of them each time it has no error, looking
into a message takes no index that is out of range, and from a message whose lengths take four
octets at most every field comes back.
-/
theorem peekV3_reads :
    (∀ (b : Octets) (reads : List Reader.Read), ∃ r, reads.foldlM Reader.after { b } = some r ∧
        r.b = b ∧ 0 ≤ r.off ∧ r.off ≤ b.length ∧ (r.err = none → 2 * reads.length ≤ r.off)) ∧
      (∀ msg, (peekV3 msg).isSome) ∧
      ∀ (m : V3Message) (s : Octets), m.Encoded 4 s →
        ∃ h, peekV3 s = some (.ok h) ∧ h.Says m := by
  refine ⟨fun b reads => ?_, isSome_peekV3, fun m s hs => peekV3_encoded hs⟩
  obtain ⟨r, hrun, hb, hpos, hend, hconsumes⟩ :=
    Reader.run_within (r := { b }) ⟨Int.le_refl _, Int.natCast_nonneg _⟩ reads
  rw [hb] at hend
  refine ⟨r, hrun, hb, hpos, hend, fun herr => ?_⟩
  have h := (hconsumes herr).2
  dsimp only at h
  omega

/-! ## A message -/

/-- A short form of a length. -/
def shortTlv (tag : UInt8) (contents : Octets) : Octets :=
  tag :: UInt8.ofNat contents.length :: contents

theorem tlv_shortTlv {most : Nat} {tag : UInt8} {contents : Octets} (h : contents.length < 128) :
    Tlv most tag contents (shortTlv tag contents) := ⟨_, .short h, rfl⟩

/-- A request at a level that neither authenticates nor encrypts. -/
def plainRequest : V3Message where
  msgID := 1
  maxSize := 1500
  flags := 4
  model := 3
  engineID := Utf8.octets "engine"
  boots := 7
  time := 300
  user := Utf8.octets "a"
  authParams := []
  privParams := []
  data := .plaintext []
  msgID_range := by decide
  maxSize_range := by decide
  model_range := by decide
  boots_range := by decide
  time_range := by decide

/-- It, with its user's name encoded so. -/
def plainOctets (user : Octets) : Octets :=
  shortTlv 0x30 (shortTlv 0x02 [3]
    ++ (shortTlv 0x30 (shortTlv 0x02 [1]
      ++ (shortTlv 0x02 [5, 220] ++ (shortTlv 0x04 [4] ++ shortTlv 0x02 [3])))
    ++ (shortTlv 0x04 (shortTlv 0x30 (shortTlv 0x04 (Utf8.octets "engine")
      ++ (shortTlv 0x02 [7] ++ (shortTlv 0x02 [1, 44] ++ (user
      ++ (shortTlv 0x04 [] ++ shortTlv 0x04 []))))))
    ++ shortTlv 0x30 [])))

theorem integer_shortTlv {most : Nat} {v : Int} {contents : Octets} (hv : twos contents = v)
    (hshort : IsShortest contents) (h : contents.length < 128) :
    Integer most v (shortTlv 0x02 contents) :=
  ⟨contents, hshort, hv, tlv_shortTlv h⟩

theorem parts_cons {P : Octets → Prop} {t u : Octets} (ht : P t) (hu : Parts Ps u) :
    Parts (P :: Ps) (t ++ u) := ⟨t, u, ht, hu, rfl⟩

theorem parts_one {P : Octets → Prop} {t : Octets} (ht : P t) : Parts [P] t :=
  ⟨t, [], ht, rfl, (List.append_nil t).symm⟩

theorem plainRequest_encoded {most : Nat} {user : Octets}
    (huser : OctetString most (Utf8.octets "a") user) (hshort : user.length ≤ 8) :
    plainRequest.Encoded most (plainOctets user) := by
  have hint : ∀ (contents : Octets) {v : Int}, twos contents = v ∧ IsShortest contents ∧
      contents.length < 128 → Integer most v (shortTlv 0x02 contents) :=
    fun contents _ h => integer_shortTlv h.1 h.2.1 h.2.2
  have hengine : (Utf8.octets "engine").length = 6 := by decide
  have hglobal : plainRequest.GlobalData most (shortTlv 0x30 (shortTlv 0x02 [1]
      ++ (shortTlv 0x02 [5, 220] ++ (shortTlv 0x04 [4] ++ shortTlv 0x02 [3])))) := by
    refine ⟨_, ?_, tlv_shortTlv (by decide)⟩
    refine parts_cons (hint [1] (by decide)) (parts_cons (hint [5, 220] (by decide)) ?_)
    exact parts_cons (tlv_shortTlv (by decide)) (parts_one (hint [3] (by decide)))
  have hparams : plainRequest.SecurityParameters most (shortTlv 0x30 (shortTlv 0x04
      (Utf8.octets "engine") ++ (shortTlv 0x02 [7] ++ (shortTlv 0x02 [1, 44] ++ (user
      ++ (shortTlv 0x04 [] ++ shortTlv 0x04 [])))))) := by
    refine ⟨_, ?_, tlv_shortTlv (by simp [shortTlv, hengine]; omega)⟩
    refine parts_cons (tlv_shortTlv (by decide)) ?_
    refine parts_cons (hint [7] (by decide)) (parts_cons (hint [1, 44] (by decide)) ?_)
    exact parts_cons huser (parts_cons (tlv_shortTlv (by decide)) (parts_one (tlv_shortTlv (by decide))))
  refine ⟨_, ?_, tlv_shortTlv (by simp [shortTlv, hengine]; omega)⟩
  refine parts_cons (hint [3] (by decide)) (parts_cons hglobal ?_)
  exact parts_cons ⟨_, hparams, tlv_shortTlv (by simp [shortTlv, hengine]; omega)⟩
    (parts_one (tlv_shortTlv (by decide)))

/-- The name in the long form of a length, two octets of it. -/
theorem peekV3_reads_plain :
    ∃ s h, peekV3 s = some (.ok h) ∧ h.Says plainRequest := by
  have huser : OctetString 4 (Utf8.octets "a") [0x04, 0x82, 0, 1, 97] :=
    ⟨[0x82, 0, 1], @Definite.long 4 1 [0, 1] (by decide) (by decide) (by decide), by decide⟩
  exact ⟨_, peekV3_reads.2.2 plainRequest _ (plainRequest_encoded huser (by decide))⟩

/-- **A length of five octets is refused**, if it is that of a name one octet long. -/
theorem five_octets_refused :
    ¬ ∀ (m : V3Message) (s : Octets), m.Encoded 126 s → ∃ h, peekV3 s = some (.ok h) ∧ h.Says m := by
  intro hall
  have huser : OctetString 126 (Utf8.octets "a") [0x04, 0x85, 0, 0, 0, 0, 1, 97] :=
    ⟨[0x85, 0, 0, 0, 0, 1], @Definite.long 126 1 [0, 0, 0, 0, 1] (by decide) (by decide) (by decide),
      by decide⟩
  obtain ⟨h, hread, -⟩ := hall plainRequest _ (plainRequest_encoded huser (by decide))
  have hmalformed : peekV3 (plainOctets [0x04, 0x85, 0, 0, 0, 0, 1, 97]) = some (.error .malformed) := by
    decide
  rw [hmalformed] at hread
  cases hread

end SnmpLens.Simulator
