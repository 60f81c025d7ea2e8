import SnmpLens.Mib.Index

/-!
# What was encoded decodes

The encoder and the decoder, object by object along the INDEX of a row. `Cut` puts a
run of each side by side: where the encoder wrote a piece, the decoder, standing in
front of it with all that follows, takes that piece and no more. There is a cut of
everything `EncodeIndex` accepts, as long as no length is written that `lengthOf`
refuses to read; where one is, the decoder stops there with an error.
-/

namespace SnmpLens.Mib

open Utf8 Strings

/-! ## The instance in a result's name -/

/-- `stripDot` of `tableRows.js`. -/
def stripDot (oid : Octets) : Octets := trimPrefix 46 oid

/-- `matchColumn` of `tableRows.js`: the column of a result, and the instance behind it. -/
def matchColumn (oid : Octets) : List Octets → Option (Octets × Octets)
  | [] => none
  | col :: rest =>
      if (stripDot col ++ [46]).isPrefixOf (stripDot oid) then
        some (col, (stripDot oid).drop ((stripDot col).length + 1))
      else matchColumn oid rest

/-! ## Both sides of an instance -/

/-- The encoder wrote `pieces` for `values`, and the decoder takes `pieces` and shows `parts`. -/
inductive Cut (implied : Bool) :
    List SmiNode → List Octets → List (List Nat) → List IndexValue → Prop
  | nil : Cut implied [] [] [] []
  | cons {node : SmiNode} {rest : List SmiNode} {value : Octets} {values : List Octets}
      {piece : List Nat} {pieces : List (List Nat)} {part : IndexValue} {parts : List IndexValue} :
      encodeOne node (trimSpace value) (implied && rest.isEmpty) = .ok piece →
      decodeOne node (piece ++ pieces.flatten) (implied && rest.isEmpty)
        = .ok (part, piece.length) →
      Cut implied rest values pieces parts →
      Cut implied (node :: rest) (value :: values) (piece :: pieces)
        ({ part with name := node.name } :: parts)

/-- Every text is `ShortEnough` where it stands. -/
def AllShort (implied : Bool) : List SmiNode → List Octets → Prop
  | node :: rest, value :: values =>
      ShortEnough (implied && rest.isEmpty) node (trimSpace value) ∧ AllShort implied rest values
  | _, _ => True

variable {implied : Bool} {nodes : List SmiNode} {values : List Octets}

/-- A cut is what the decoder's loop does. -/
theorem Cut.decodeParts {pieces : List (List Nat)} {parts : List IndexValue}
    (h : Cut implied nodes values pieces parts) :
    decodeParts implied nodes pieces.flatten = (parts, .ok []) := by
  induction h with
  | nil => rfl
  | cons _ hdec _ ih =>
      rw [List.flatten_cons]
      unfold Mib.decodeParts
      rw [hdec]
      dsimp only
      rw [List.drop_left, ih]

/-- Of texts that are encoded, the pieces; and when the decoder reads them. -/
theorem cut_of_encodeParts {subs : List Nat} (hlen : values.length = nodes.length)
    (h : encodeParts implied nodes values = .ok subs) :
    ∃ pieces : List (List Nat), subs = pieces.flatten ∧ (nodes ≠ [] → subs ≠ []) ∧
      (∀ n ∈ subs, n < 2 ^ 32) ∧
      ((∃ parts, Cut implied nodes values pieces parts) ↔ AllShort implied nodes values) ∧
      ∀ pieces' parts, Cut implied nodes values pieces' parts → pieces' = pieces := by
  induction nodes generalizing values subs with
  | nil =>
      obtain rfl := List.length_eq_zero_iff.mp hlen
      obtain rfl := Except.ok.inj h
      refine ⟨[], rfl, by simp, by simp, ⟨fun _ => trivial, fun _ => ⟨[], .nil⟩⟩, ?_⟩
      intro pieces' parts hcut
      cases hcut
      rfl
  | cons node rest ih =>
      obtain ⟨value, values, rfl⟩ := List.exists_cons_of_ne_nil
        (List.ne_nil_of_length_eq_add_one hlen)
      unfold encodeParts at h
      cases henc : encodeOne node (trimSpace value) (implied && rest.isEmpty) with
      | error err => exact absurd (henc ▸ h) (by simp [Except.mapError, bind, Except.bind])
      | ok piece =>
          rw [henc] at h
          change (encodeParts implied rest values).bind _ = _ at h
          cases hrest : encodeParts implied rest values with
          | error err => exact absurd (hrest ▸ h) (by simp [Except.bind])
          | ok more =>
              rw [hrest] at h
              obtain rfl : piece ++ more = subs := Except.ok.inj h
              obtain ⟨pieces, rfl, hne, hlt, hiff, huniq⟩ := ih (by simpa using hlen) hrest
              obtain ⟨l, c, hw⟩ := of_encodeOne henc
              have himp : (implied && rest.isEmpty) = true → pieces.flatten = [] := by
                intro hi
                have hnil : rest = [] := by
                  rw [Bool.and_eq_true] at hi
                  exact List.isEmpty_iff.mp hi.2
                rw [hnil] at hrest
                exact (Except.ok.inj hrest).symm
              have hpne : piece ++ pieces.flatten ≠ [] := by simp [hw.ne_nil]
              refine ⟨piece :: pieces, by simp, fun _ => hpne, ?_, ?_, ?_⟩
              · intro n hn
                rcases List.mem_append.mp hn with hn | hn
                · exact hw.lt n hn
                · exact hlt n hn
              · constructor
                · rintro ⟨parts, hcut⟩
                  cases hcut with
                  | cons _ hdec hcut =>
                      refine ⟨hw.short.mpr ?_, hiff.mp ⟨_, hcut⟩⟩
                      have hall : ∀ n ∈ piece ++ pieces.flatten, n < 2 ^ 32 := by
                        intro n hn
                        rcases List.mem_append.mp hn with hn | hn
                        · exact hw.lt n hn
                        · exact hlt n hn
                      obtain ⟨l', c', rest', hl', hf', hread, hsplit, _, hused⟩ :=
                        of_decodeOne hall hdec
                      obtain rfl : l = l' := Option.some.inj (hw.layout.symm.trans hl')
                      have hpiece : piece = wire (implied && rest.isEmpty) l c' :=
                        (List.append_inj hsplit hused).1
                      have hsame : wire (implied && rest.isEmpty) l c ++ []
                          = wire (implied && rest.isEmpty) l c' ++ [] := by
                        rw [← hw.wire, ← hpiece]
                      obtain ⟨rfl, _⟩ := wire_append_inj hw.fits hf' (by simp) hsame
                      exact hread
                · rintro ⟨hshort, hall⟩
                  obtain ⟨parts, hcut⟩ := hiff.mpr hall
                  have hdec := decodeOne_wire hw.layout hw.fits (hw.short.mp hshort)
                    (by rw [← hw.wire]; exact hpne) himp
                  rw [← hw.wire] at hdec
                  exact ⟨_, .cons henc hdec hcut⟩
              · intro pieces' parts hcut
                cases hcut with
                | cons henc' _ hcut =>
                    obtain rfl := Except.ok.inj (henc.symm.trans henc')
                    rw [huniq _ _ hcut]

theorem encodeIndex_eq_ok_iff {table : Table} {raw : Octets} :
    encodeIndex table values = .ok raw ↔
      table.index ≠ [] ∧ values.length = table.index.length ∧
        ∃ subs, encodeParts table.implied table.index values = .ok subs ∧ dotted subs = raw := by
  unfold encodeIndex
  by_cases hindex : table.index = []
  · simp [hindex]
  · rw [if_neg (by simpa using hindex)]
    by_cases hlen : values.length = table.index.length
    · rw [if_neg (not_not.mpr hlen)]
      cases encodeParts table.implied table.index values <;> simp [Except.map, hindex, hlen]
    · rw [if_pos hlen]
      simp [hlen]

theorem parseSubIDs_dotted {ns : List Nat} (hne : ns ≠ []) (hlt : ∀ n ∈ ns, n < 2 ^ 32) :
    parseSubIDs (dotted ns) = .ok ns := by
  unfold parseSubIDs
  dsimp only
  rw [trimSpace_dotted, trimPrefix_dotted, if_neg (by simpa using dotted_ne_nil hne),
    splitOn_dotted hne, mapM_parseUint hlt]

theorem parseSubIDs_dot_dotted {ns : List Nat} (hne : ns ≠ []) (hlt : ∀ n ∈ ns, n < 2 ^ 32) :
    parseSubIDs (46 :: dotted ns) = .ok ns := by
  unfold parseSubIDs
  dsimp only
  rw [trimPrefix_dot_dotted, if_neg (by simpa using dotted_ne_nil hne), splitOn_dotted hne,
    mapM_parseUint hlt]

/-! ## The instance of a full name -/

theorem digits_append_dot_inj {n m : Nat} {t t' : Octets}
    (h : formatUint n ++ 46 :: t = formatUint m ++ 46 :: t') : n = m ∧ t = t' := by
  have hsplit : ∀ (k : Nat) (t : Octets),
      (formatUint k ++ 46 :: t).takeWhile isDigit = formatUint k ∧
      (formatUint k ++ 46 :: t).dropWhile isDigit = 46 :: t := by
    intro k t
    have hd : ∀ b ∈ formatUint k, isDigit b = true := fun b hb => isDigit_of_mem hb
    constructor
    · rw [List.takeWhile_append_of_pos hd]
      simp [show isDigit 46 = false from by decide]
    · rw [List.dropWhile_append_of_pos hd]
      simp [show isDigit 46 = false from by decide]
  have hfront : formatUint n = formatUint m := by
    rw [← (hsplit n t).1, h, (hsplit m t').1]
  have hback : (46 : UInt8) :: t = 46 :: t' := by
    rw [← (hsplit n t).2, h, (hsplit m t').2]
  exact ⟨formatUint_inj hfront, (List.cons.inj hback).2⟩

/-- **The instance of a result's full name**, among the columns of its row, is what stands behind
its column. -/
theorem matchColumn_full {row : List Nat} (hrow : row ≠ []) {ks subs : List Nat} {k : Nat}
    (hk : k ∈ ks) (hsubs : subs ≠ []) {oid : Octets}
    (hoid : stripDot oid = dotted (row ++ k :: subs)) :
    (matchColumn oid (ks.map fun k => dotted (row ++ [k]))).map Prod.snd = some (dotted subs) := by
  have hname : dotted (row ++ k :: subs)
      = dotted row ++ 46 :: (formatUint k ++ 46 :: dotted subs) := by
    rw [dotted_append hrow (by simp), dotted_cons k hsubs]
  have hcol : ∀ j, dotted (row ++ [j]) = dotted row ++ 46 :: formatUint j := by
    intro j
    rw [dotted_append hrow (by simp), dotted_singleton]
  induction ks with
  | nil => cases hk
  | cons j ks ih =>
      rw [List.map_cons]
      unfold matchColumn
      have hstrip : stripDot (dotted (row ++ [j])) = dotted row ++ 46 :: formatUint j := by
        unfold stripDot
        rw [trimPrefix_dotted, hcol]
      rw [hstrip, hoid, hname]
      by_cases hj : j = k
      · have hpre : ((dotted row ++ 46 :: formatUint j) ++ [46]).isPrefixOf
            (dotted row ++ 46 :: (formatUint k ++ 46 :: dotted subs)) = true :=
          List.isPrefixOf_iff_prefix.mpr ⟨dotted subs, by simp [hj]⟩
        rw [if_pos hpre, hj]
        have hsplit : dotted row ++ 46 :: (formatUint k ++ 46 :: dotted subs)
            = (dotted row ++ 46 :: formatUint k ++ [46]) ++ dotted subs := by simp
        rw [hsplit, List.drop_left' (by simp; omega), Option.map_some]
      · have hpre : ¬ ((dotted row ++ 46 :: formatUint j) ++ [46]).isPrefixOf
            (dotted row ++ 46 :: (formatUint k ++ 46 :: dotted subs)) = true := by
          intro hp
          obtain ⟨t, ht⟩ := List.isPrefixOf_iff_prefix.mp hp
          have hcut : formatUint j ++ 46 :: t = formatUint k ++ 46 :: dotted subs := by
            simpa using ht
          exact hj (digits_append_dot_inj hcut).1
        rw [if_neg hpre]
        exact ih ((List.mem_cons.mp hk).resolve_left (Ne.symm hj))

/-! ## Rows -/

/--
**What was encoded decodes, unless a length is too long to be read.**

Given as it is, behind a dot, or taken from a result's full name, what `EncodeIndex`
made is an instance that `DecodeIndexes` cuts at the same boundaries, consumes and
reports nothing about; and it is exactly when every text is short enough.
-/
theorem encoded_decodes {table : Table} {values : List Octets} {raw : Octets}
    (h : encodeIndex table values = .ok raw) :
    ∃ pieces : List (List Nat), raw = dotted pieces.flatten ∧
      (∀ given ∈ [raw, 46 :: raw],
        (∃ parts, Cut table.implied table.index values pieces parts ∧
          decodeInstance table given = { raw := given, parts, error := none }) ↔
        AllShort table.implied table.index values) ∧
      ∀ (row ks : List Nat) (k : Nat) (oid : Octets), row ≠ [] → k ∈ ks →
        stripDot oid = dotted (row ++ k :: pieces.flatten) →
        (matchColumn oid (ks.map fun k => dotted (row ++ [k]))).map Prod.snd = some raw := by
  obtain ⟨hindex, hlen, subs, hparts, rfl⟩ := encodeIndex_eq_ok_iff.mp h
  obtain ⟨pieces, rfl, hne, hlt, hiff, _⟩ := cut_of_encodeParts hlen hparts
  have hsubs : pieces.flatten ≠ [] := hne hindex
  refine ⟨pieces, rfl, ?_, fun row ks k oid hrow hk hoid => matchColumn_full hrow hk hsubs hoid⟩
  intro given hgiven
  have hparse : parseSubIDs given = .ok pieces.flatten := by
    rcases List.mem_cons.mp hgiven with rfl | hgiven
    · exact parseSubIDs_dotted hsubs hlt
    · rw [List.mem_singleton.mp hgiven]
      exact parseSubIDs_dot_dotted hsubs hlt
  constructor
  · rintro ⟨parts, hcut, _⟩
    exact hiff.mp ⟨parts, hcut⟩
  · intro hall
    obtain ⟨parts, hcut⟩ := hiff.mpr hall
    refine ⟨parts, hcut, ?_⟩
    unfold decodeInstance
    rw [hparse]
    dsimp only
    rw [if_neg (by simpa using hindex), hcut.decodeParts]
    rfl

/-- A number, an address and a name behind its length. -/
def peerTable : Table where
  index := [{ name := [112], type := some { baseType := .integer32 } },
    { name := [97], type := some { baseType := .octetString, name := ipAddressName } },
    { name := [110], type := some { baseType := .octetString } }]
  implied := false

/-- `7`, `10.0.0.1` and `up`. -/
theorem encoded_decodes_peer :
    ∃ pieces : List (List Nat), dotted [7, 10, 0, 0, 1, 2, 117, 112] = dotted pieces.flatten ∧
      (∀ given ∈ [dotted [7, 10, 0, 0, 1, 2, 117, 112], 46 :: dotted [7, 10, 0, 0, 1, 2, 117, 112]],
        (∃ parts, Cut false peerTable.index [dotted [7], dotted [10, 0, 0, 1], [117, 112]] pieces
            parts ∧
          decodeInstance peerTable given = { raw := given, parts, error := none }) ↔
        AllShort false peerTable.index [dotted [7], dotted [10, 0, 0, 1], [117, 112]]) ∧
      ∀ (row ks : List Nat) (k : Nat) (oid : Octets), row ≠ [] → k ∈ ks →
        stripDot oid = dotted (row ++ k :: pieces.flatten) →
        (matchColumn oid (ks.map fun k => dotted (row ++ [k]))).map Prod.snd
          = some (dotted [7, 10, 0, 0, 1, 2, 117, 112]) :=
  @encoded_decodes peerTable _ _ (by decide)

/-! ## A length that is written and not read -/

/-- A table that is indexed by a name. -/
def nameTable : Table where
  index := [{ name := [110], type := some { baseType := .octetString } }]
  implied := false

/-- The letter `a`, over and over. -/
def letters (n : Nat) : Octets := List.replicate n 97

theorem mem_letters {n : Nat} {b : UInt8} (h : b ∈ letters n) : b = 97 :=
  (List.mem_replicate.mp h).2

theorem trimSpace_letters (n : Nat) : trimSpace (letters n) = letters n := by
  have hsolid : Solid 97 := by decide
  refine trimSpace_eq_self (fun b hb => ?_) fun b hb => ?_
  · rw [mem_letters (List.mem_of_mem_head? hb)]
    exact hsolid
  · rw [mem_letters (List.mem_of_mem_getLast? hb)]
    exact hsolid

theorem octetsOf_letters {t : SmiType} (ht : t.isIpAddress = false) (n : Nat) :
    octetsOf t (letters n) = .ok (List.replicate n 97) := by
  have hcolon : (letters n).contains 58 = false := by
    rw [← Bool.not_eq_true, List.contains_iff_mem]
    exact fun h => absurd (mem_letters h) (by decide)
  have hhyphen : (letters n).contains 45 = false := by
    rw [← Bool.not_eq_true, List.contains_iff_mem]
    exact fun h => absurd (mem_letters h) (by decide)
  have hhex : parseHexOctets (letters n) = none := by
    unfold parseHexOctets
    rw [hcolon, hhyphen]
    rfl
  unfold octetsOf
  rw [ht, hhex]
  simp [letters]

theorem encodeIndex_letters {n : Nat} (hpos : 0 < n) (hlt : n < 2 ^ 32) :
    encodeIndex nameTable [letters n] = .ok (dotted (n :: List.replicate n 97)) := by
  have hne : letters n ≠ [] := by
    rw [letters, Ne, List.replicate_eq_nil_iff]
    omega
  have hone : encodeOne { name := [110], type := some { baseType := .octetString } } (letters n)
      false = .ok (n :: List.replicate n 97) := by
    obtain ⟨t, ht, hfixed, hone⟩ := @encodeOne_octets
      { name := [110], type := some { baseType := .octetString } } false none _ rfl hne
    obtain rfl := Option.some.inj ht
    rw [hone, octetsOf_letters rfl]
    show withLength (List.replicate n 97) false none = _
    unfold withLength
    dsimp only
    rw [if_neg (by simp), List.length_replicate, if_neg (by omega)]
  unfold encodeIndex nameTable
  rw [if_neg (by simp), if_neg (by simp)]
  unfold encodeParts
  rw [trimSpace_letters]
  show Except.map dotted (do
    let enc ← (encodeOne _ (letters n) false).mapError _
    let subs ← encodeParts false [] []
    return enc ++ subs) = _
  rw [hone]
  show Except.ok (dotted (n :: List.replicate n 97 ++ [])) = _
  rw [List.append_nil]

theorem decodeInstance_length {n : Nat} {rest : List Nat} (hmax : maxInt32 < n)
    (hlt : ∀ m ∈ n :: rest, m < 2 ^ 32) :
    (decodeInstance nameTable (dotted (n :: rest))).error
      = some (.inPart [110] (.lengthNotInt n)) := by
  have hone : decodeOne { name := [110], type := some { baseType := .octetString } } (n :: rest)
      false = .error (.lengthNotInt n) := by
    have hlength : lengthOf (n :: rest) false none = .error (.lengthNotInt n) := by
      unfold lengthOf
      rw [List.headD_cons]
      dsimp only
      rw [if_neg (by simp), if_pos hmax]
    rw [@decodeOne_octets _ _ none _ rfl (by simp), hlength]
    rfl
  have hparts : decodeParts false nameTable.index (n :: rest)
      = ([], .error (.inPart [110] (.lengthNotInt n))) := by
    unfold nameTable decodeParts
    dsimp only
    rw [Bool.false_and, hone]
  unfold decodeInstance
  rw [parseSubIDs_dotted (by simp) hlt]
  dsimp only
  rw [if_neg (by simp [nameTable]), show nameTable.implied = false from rfl, hparts]

/-- **A name of 2 GiB is encoded and does not decode.** -/
theorem encoded_unread :
    ∃ raw, encodeIndex nameTable [letters (2 ^ 31)] = .ok raw ∧
      (decodeInstance nameTable raw).error = some (.inPart [110] (.lengthNotInt (2 ^ 31))) := by
  refine ⟨_, encodeIndex_letters (by omega) (by omega), decodeInstance_length ?_ ?_⟩
  · unfold maxInt32
    omega
  · intro m hm
    rcases List.mem_cons.mp hm with rfl | hm
    · omega
    · rw [(List.mem_replicate.mp hm).2]
      omega

end SnmpLens.Mib
