import SnmpLens.Lib.Bisect
import SnmpLens.Simulator.Pdu

/-!
# What fits in a message

`fit` of `pkg/simulator/pdu.go`. An answer that is too long for one message is a `tooBig`, but
for GETBULK, which may be answered with fewer varbinds than it asked for: as many as fit, and no
fewer than its non-repeaters. How many is searched for by encoding the answer again and again.

How a message is encoded, signed and encrypted is gosnmp's; here it is a parameter. It can fail,
and where it does not it gives at least the header of a message, so `best` is set where a cut
that fits was found.
-/

namespace SnmpLens.Simulator

open Utf8

/-- `gosnmp.GetBulkRequest`. -/
def getBulkRequest : UInt8 := 0xa5

/-- `gosnmp.SnmpPacket`, as far as its answer is fitted to it. -/
structure Request where
  pduType : UInt8
  nonRepeaters : UInt8
  vars : List Varbind
deriving DecidableEq, Repr

/-- `bulkFloor`: how far a GETBULK answer may be cut; any other may not be cut at all. -/
def bulkFloor (req : Request) : Int :=
  if req.pduType ≠ getBulkRequest then -1
  else min (req.nonRepeaters.toNat : Int) req.vars.length

/-- `tooBig`: the answer to a request whose response does not fit. -/
def tooBig (ver : Version) (req : Request) : Answer where
  vars := if ver = .v1 then req.vars else []
  status := .tooBig

/-- An answer with its first `n` varbinds. -/
def Answer.cut (ans : Answer) (n : Nat) : Answer := { ans with vars := ans.vars.take n }

section

variable {ε : Type}

/-- One probe of the search: the answer cut to `n` varbinds, where that is within the limit. -/
def probe (ans : Answer) (limit : Int) (encode : Answer → Except ε Octets) (n : Nat) :
    Except ε (Option Octets) :=
  match encode (ans.cut n) with
  | .error e => .error e
  | .ok b => .ok (if (b.length : Int) ≤ limit then some b else none)

def fit (ans : Answer) (floor : Int) (big : Answer) (limit : Int)
    (encode : Answer → Except ε Octets) : Except ε Octets :=
  match encode ans with
  | .error e => .error e
  | .ok out =>
      if (out.length : Int) ≤ limit then .ok out
      else if 0 ≤ floor then
        let top := (ans.vars.length : Int) - 1
        match Bisect.search (probe ans limit encode) ans.vars.length floor top none with
        | .error e => .error e
        | .ok (some best) => .ok best
        | .ok none => encode big
      else encode big

/-! ## What may be answered -/

/-- The numbers of varbinds `req` may be answered with, of the ones `ans` has. -/
def Allowed (req : Request) (ans : Answer) (n : Nat) : Prop :=
  n = ans.vars.length ∨
    req.pduType = getBulkRequest ∧ min req.nonRepeaters.toNat req.vars.length ≤ n ∧
      n ≤ ans.vars.length

/-- The first `n` varbinds are within the limit. -/
def Fits (ans : Answer) (limit : Int) (encode : Answer → Except ε Octets) (n : Nat) : Prop :=
  ∃ b, encode (ans.cut n) = .ok b ∧ (b.length : Int) ≤ limit

/-- The first `n` varbinds are longer than the limit. -/
def Long (ans : Answer) (limit : Int) (encode : Answer → Except ε Octets) (n : Nat) : Prop :=
  ∃ b, encode (ans.cut n) = .ok b ∧ limit < b.length

/-- The encoded size grows with the number of varbinds. -/
def Grows (ans : Answer) (encode : Answer → Except ε Octets) : Prop :=
  ∀ m n, m ≤ n → n ≤ ans.vars.length → ∀ a b, encode (ans.cut m) = .ok a →
    encode (ans.cut n) = .ok b → a.length ≤ b.length

/-- The shortest answer `req` may be given. -/
def shortest (req : Request) (ans : Answer) : Nat :=
  if req.pduType = getBulkRequest then
    min (min req.nonRepeaters.toNat req.vars.length) ans.vars.length
  else ans.vars.length

variable {ans : Answer} {limit : Int} {encode : Answer → Except ε Octets} {req : Request}
  {n : Nat}

theorem Answer.cut_length (ans : Answer) : ans.cut ans.vars.length = ans := by
  unfold Answer.cut
  rw [List.take_length]

theorem bulkFloor_nonneg : 0 ≤ bulkFloor req ↔ req.pduType = getBulkRequest := by
  unfold bulkFloor
  by_cases hbulk : req.pduType = getBulkRequest
  · rw [if_neg (not_not.mpr hbulk)]
    exact iff_of_true (by omega) hbulk
  · rw [if_pos hbulk]
    exact iff_of_false (by omega) hbulk

theorem bulkFloor_bulk (h : req.pduType = getBulkRequest) :
    bulkFloor req = (min req.nonRepeaters.toNat req.vars.length : Nat) := by
  unfold bulkFloor
  rw [if_neg (not_not.mpr h)]
  omega

theorem probe_error {e : ε} (h : probe ans limit encode n = .error e) :
    encode (ans.cut n) = .error e := by
  unfold probe at h
  cases hn : encode (ans.cut n) with
  | error e' =>
      rw [hn] at h
      cases h
      rfl
  | ok b =>
      rw [hn] at h
      cases h

theorem probe_some {b : Octets} (h : probe ans limit encode n = .ok (some b)) :
    encode (ans.cut n) = .ok b ∧ (b.length : Int) ≤ limit := by
  unfold probe at h
  cases hn : encode (ans.cut n) with
  | error e => rw [hn] at h; cases h
  | ok b' =>
      rw [hn] at h
      dsimp only at h
      split at h
      · rename_i hfits
        cases h
        exact ⟨rfl, hfits⟩
      · cases h

theorem probe_none (h : probe ans limit encode n = .ok none) :
    Long ans limit encode n := by
  unfold probe at h
  cases hn : encode (ans.cut n) with
  | error e => rw [hn] at h; cases h
  | ok b =>
      rw [hn] at h
      dsimp only at h
      split at h
      · cases h
      · rename_i hlong
        exact ⟨b, hn, by omega⟩

theorem not_fits_of_long (hgrows : Grows ans encode) {m n : Nat} (hmn : m ≤ n)
    (hn : n ≤ ans.vars.length) (hlong : Long ans limit encode m) : ¬ Fits ans limit encode n := by
  intro hfits
  obtain ⟨b, hb, hover⟩ := hlong
  obtain ⟨c, hc, hwithin⟩ := hfits
  have hsize := hgrows m n hmn hn b c hb hc
  omega

/-- What a request allows is the whole answer, and from the shortest on. -/
theorem shortest_le (h : Allowed req ans n) : shortest req ans ≤ n := by
  unfold shortest
  rcases h with rfl | ⟨hbulk, hfloor, _⟩
  · split <;> omega
  · rw [if_pos hbulk]
    omega

theorem allowed_whole : Allowed req ans ans.vars.length := .inl rfl

theorem le_of_allowed (h : Allowed req ans n) : n ≤ ans.vars.length := by
  rcases h with rfl | ⟨_, _, hle⟩
  · exact le_refl _
  · exact hle

/-! ## The answer fitted -/

/-- `n` is the most varbinds the answer may have and be within the limit. -/
def Longest (req : Request) (ans : Answer) (limit : Int) (encode : Answer → Except ε Octets)
    (n : Nat) : Prop :=
  Allowed req ans n ∧ Fits ans limit encode n ∧
    ∀ m, Allowed req ans m → Fits ans limit encode m → m ≤ n

/-- The whole answer is too long, and `req` does not let it be cut, or not short enough. -/
def TooLong (req : Request) (ans : Answer) (limit : Int) (encode : Answer → Except ε Octets) :
    Prop :=
  Long ans limit encode ans.vars.length ∧
    (req.pduType ≠ getBulkRequest ∨ Long ans limit encode (shortest req ans))

theorem TooLong.not_fits (hgrows : Grows ans encode) (h : TooLong req ans limit encode)
    (hn : Allowed req ans n) : ¬ Fits ans limit encode n := by
  rcases h.2 with hrigid | hlong
  · rcases hn with rfl | ⟨hbulk, _⟩
    · exact not_fits_of_long hgrows (le_refl _) (le_refl _) h.1
    · exact absurd hbulk hrigid
  · exact not_fits_of_long hgrows (shortest_le hn) (le_of_allowed hn) hlong

/-- What a request is answered with: the longest answer that fits, exactly where it is not too
long, and `big` exactly where it is; or an error, where an answer cannot be encoded. -/
inductive Fitted (req : Request) (ans big : Answer) (limit : Int)
    (encode : Answer → Except ε Octets) : Except ε Octets → Prop
  | failed (n : Nat) (e : ε) : Allowed req ans n → encode (ans.cut n) = .error e →
      Fitted req ans big limit encode (.error e)
  | kept (n : Nat) : Longest req ans limit encode n → ¬ TooLong req ans limit encode →
      Fitted req ans big limit encode (encode (ans.cut n))
  | tooBig : TooLong req ans limit encode → Fitted req ans big limit encode (encode big)

variable {big : Answer} {out : Octets}

/-- Whatever is fitted is an encoding of the answer, or of a part of it, or of `big`. -/
theorem fit_encodes {floor : Int} (h : fit ans floor big limit encode = .ok out) :
    (∃ n, encode (ans.cut n) = .ok out) ∨ encode big = .ok out := by
  unfold fit at h
  cases hwhole : encode ans with
  | error e =>
      rw [hwhole] at h
      cases h
  | ok b =>
      rw [hwhole] at h
      dsimp only at h
      split at h
      · cases h
        exact .inl ⟨_, (Answer.cut_length ans).symm ▸ hwhole⟩
      · split at h
        · rename_i hfloor
          have hfound := @Bisect.search_outcome _ _ (probe ans limit encode) floor
            ((ans.vars.length : Int) - 1) _ _ none ans.vars.length (Bisect.Known.start hfloor)
            (by omega)
          generalize Bisect.search (probe ans limit encode) ans.vars.length floor
            ((ans.vars.length : Int) - 1) none = result at h hfound
          cases hfound with
          | failed n _ _ _ => cases h
          | found n _ _ hprobe _ =>
              cases h
              exact .inl ⟨n, (probe_some hprobe).1⟩
          | none _ => exact .inr h
        · exact .inr h

/-- A GETBULK answer that is too long for one message is cut. -/
theorem fit_bulk (hgrows : Grows ans encode) (hbulk : req.pduType = getBulkRequest)
    (hout : encode ans = .ok out) (hlimit : limit < out.length) :
    Fitted req ans big limit encode (fit ans (bulkFloor req) big limit encode) := by
  have hlong : Long ans limit encode ans.vars.length :=
    ⟨out, (Answer.cut_length ans).symm ▸ hout, hlimit⟩
  have hfloor := bulkFloor_bulk hbulk
  have hallowed : ∀ n : Nat, bulkFloor req ≤ n → (n : Int) ≤ ans.vars.length - 1 →
      Allowed req ans n := by
    intro n hn htop
    exact .inr ⟨hbulk, by omega, by omega⟩
  have hfound := @Bisect.search_outcome _ _ (probe ans limit encode) (bulkFloor req)
    ((ans.vars.length : Int) - 1) _ _ none ans.vars.length (Bisect.Known.start (by omega))
    (by omega)
  unfold fit
  rw [hout]
  dsimp only
  rw [if_neg (by omega), if_pos (by omega)]
  generalize Bisect.search (probe ans limit encode) ans.vars.length (bulkFloor req)
    ((ans.vars.length : Int) - 1) none = result at hfound
  cases hfound with
  | failed n hn htop hprobe => exact .failed n _ (hallowed n hn htop) (probe_error hprobe)
  | @found b n hn htop hprobe hnext =>
      have hkept := probe_some hprobe
      have hfits : Fits ans limit encode n := ⟨b, hkept⟩
      have hlast : ∀ m, Allowed req ans m → Fits ans limit encode m → m ≤ n := by
        intro m hm hfitsm
        by_contra hgt
        have hle := le_of_allowed hm
        -- the next one is too long, and so is every one behind it
        rcases hnext with htop | hrefused
        · obtain rfl : m = ans.vars.length := by omega
          exact not_fits_of_long hgrows (le_refl _) (le_refl _) hlong hfitsm
        · exact not_fits_of_long hgrows (by omega) hle (probe_none hrefused) hfitsm
      dsimp only
      rw [← hkept.1]
      refine .kept n ⟨hallowed n hn htop, hfits, hlast⟩ ?_
      intro hover
      exact hover.not_fits hgrows (hallowed n hn htop) hfits
  | none hempty =>
      refine .tooBig ⟨hlong, .inr ?_⟩
      unfold shortest
      rw [if_pos hbulk]
      rcases hempty with hnone | hrefused
      · rw [min_eq_right (by omega)]
        exact hlong
      · have hrefused := probe_none hrefused
        rcases Nat.le_total (min req.nonRepeaters.toNat req.vars.length) ans.vars.length with
          hle | hle
        · rw [min_eq_left hle]
          rw [hfloor, Int.toNat_natCast] at hrefused
          exact hrefused
        · rw [min_eq_right hle]
          exact hlong

/-- **`fit` keeps the longest prefix that is allowed and fits**, and it answers `tooBig` exactly
where the whole is too long and the request lets nothing be cut, or its shortest answer is too
long as well. -/
theorem fit_longest (ver : Version) (req : Request) (ans : Answer) (limit : Int)
    (encode : Answer → Except ε Octets) (hgrows : Grows ans encode) :
    Fitted req ans (tooBig ver req) limit encode
      (fit ans (bulkFloor req) (tooBig ver req) limit encode) := by
  have hwhole : encode (ans.cut ans.vars.length) = encode ans := by rw [Answer.cut_length]
  cases hout : encode ans with
  | error e =>
      unfold fit
      rw [hout]
      exact .failed _ e allowed_whole (hwhole.trans hout)
  | ok out =>
      by_cases hfits : (out.length : Int) ≤ limit
      · have hkept : Fits ans limit encode ans.vars.length := ⟨out, hwhole.trans hout, hfits⟩
        unfold fit
        rw [hout]
        dsimp only
        rw [if_pos hfits, ← hout, ← hwhole]
        refine .kept _ ⟨allowed_whole, hkept, fun m hm _ => le_of_allowed hm⟩ ?_
        intro hover
        exact hover.not_fits hgrows allowed_whole hkept
      · by_cases hbulk : req.pduType = getBulkRequest
        · exact fit_bulk hgrows hbulk hout (by omega)
        · unfold fit
          rw [hout]
          dsimp only
          rw [if_neg hfits, if_neg (fun h => hbulk (bulkFloor_nonneg.mp h))]
          exact .tooBig ⟨⟨out, hwhole.trans hout, by omega⟩, .inl hbulk⟩

end

/-! ### A GETBULK of three names, in messages of 60 octets -/

/-- A short TLV. -/
def short (tag : UInt8) (contents : Octets) : Octets := tag :: contents.length.toUInt8 :: contents

/-- `MarshalMsg` of a short SNMPv2c response to a request of the community `public`, whose
names have single octets for arcs and whose values are exceptions. -/
def response (ans : Answer) : Except Unit Octets :=
  let binding (v : Varbind) : Octets :=
    match arcs v.name, v.type with
    | a :: b :: rest, .other tag =>
        let id := (40 * a + b).toUInt8 :: rest.map Nat.toUInt8
        short 0x30 (short 0x06 id ++ short tag.toUInt8 [])
    | _, _ => []
  let error : UInt8 := if ans.status = .noError then 0 else 1
  .ok (short 0x30 (short 0x02 [1] ++ short 0x04 [112, 117, 98, 108, 105, 99]
    ++ short 0xa2 (short 0x02 [9] ++ short 0x02 [error] ++ short 0x02 [ans.index.toUInt8]
      ++ short 0x30 (ans.vars.flatMap binding))))

/-- Three names at the end of the tree. -/
def threeAtEnd : Answer where
  vars := [Strings.dotted [1, 3, 6, 1, 2, 1, 1, 5, 0], Strings.dotted [1, 3, 6, 1, 2, 1, 1, 6, 0],
    Strings.dotted [1, 3, 6, 1, 2, 1, 1, 7, 0]].map fun name =>
      { name, type := endOfMibView, value := .other }

/-- Three of them asked for at once. -/
def bulkOfThree : Request where
  pduType := getBulkRequest
  nonRepeaters := 0
  vars := threeAtEnd.vars

theorem fit_longest_three :
    Fitted bulkOfThree threeAtEnd (tooBig .v2c bulkOfThree) 60 response
        (fit threeAtEnd (bulkFloor bulkOfThree) (tooBig .v2c bulkOfThree) 60 response) ∧
      fit threeAtEnd (bulkFloor bulkOfThree) (tooBig .v2c bulkOfThree) 60 response
        = response (threeAtEnd.cut 2) := by
  refine ⟨fit_longest .v2c bulkOfThree threeAtEnd 60 response ?_, by decide⟩
  have hsizes : ∀ n ≤ 3, ∀ m ≤ n, ((response (threeAtEnd.cut m)).toOption.getD []).length
      ≤ ((response (threeAtEnd.cut n)).toOption.getD []).length := by decide
  intro m n hmn hn a b ha hb
  have hsize := hsizes n hn m hmn
  rw [ha, hb] at hsize
  exact hsize

end SnmpLens.Simulator
