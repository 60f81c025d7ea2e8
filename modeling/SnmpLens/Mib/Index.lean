import SnmpLens.Mib.Table

/-!
# What an instance spells

RFC 2578 section 7.7, apart from how either half of `table.go` reads it: an index
object is a number, a list of arcs or a string of octets, and `wire` is the
sub-identifiers it stands for. `Spells` puts the objects of a row behind one another.
The encoder only writes what `Spells` allows and the decoder reads all of it back,
unless a length is written that the decoder refuses to read.
-/

namespace SnmpLens.Mib

open Utf8 Strings

/-! ## Contents -/

/-- How an index object is laid out. -/
inductive Layout where
  | number
  | arcs
  | octets (fixed : Option Nat)
deriving DecidableEq, Repr

/-- What an index object is. -/
inductive Content where
  | number (v : Nat)
  | arcs (ns : List Nat)
  | octets (b : List Nat)
deriving DecidableEq, Repr

/-- The layout of a type, if it can be indexed on. -/
def SmiType.layout (t : SmiType) : Option Layout :=
  match t.baseType with
  | .enum | .integer32 | .unsigned32 | .integer64 | .unsigned64 => some .number
  | .objectIdentifier => some .arcs
  | .octetString | .bits => some (.octets t.fixed)
  | _ => none

/-- The layout of an index object; one whose type did not resolve is a number. -/
def SmiNode.layout (node : SmiNode) : Option Layout :=
  match node.type with
  | none => some .number
  | some t => t.layout

/-- A content of that layout. -/
def Fits : Layout → Content → Prop
  | .number, .number v => v < 2 ^ 32
  | .arcs, .arcs ns => ∀ n ∈ ns, n < 2 ^ 32
  | .octets fixed, .octets b => (∀ c ∈ b, c ≤ 255) ∧ ∀ n, fixed = some n → b.length = n
  | _, _ => False

/-- With its length in front, unless the length is known. -/
def counted (implied : Bool) (fixed : Option Nat) (ns : List Nat) : List Nat :=
  if fixed.isSome || implied then ns else ns.length :: ns

/-- The sub-identifiers of a content. -/
def wire (implied : Bool) : Layout → Content → List Nat
  | .octets fixed, .octets b => counted implied fixed b
  | _, .number v => [v]
  | _, .arcs ns => counted implied none ns
  | _, .octets b => b

/-- The length the decoder will find in front of a content, if it finds one. -/
def writtenLength (implied : Bool) : Layout → Content → Option Nat
  | .arcs, .arcs ns => if implied then none else some ns.length
  | .octets none, .octets b => if implied then none else some b.length
  | _, _ => none

/-- A length that the decoder reads. -/
def Readable (implied : Bool) (l : Layout) (c : Content) : Prop :=
  ∀ n, writtenLength implied l c = some n → n ≤ maxInt32

/-- The labels of an enumeration. -/
def SmiNode.labels (node : SmiNode) : Option Enum :=
  node.type.bind fun t => if t.baseType = .enum then t.enum else none

/-- What a part of a row is shown as. -/
def valueOf (node : SmiNode) : Content → IndexValue
  | .number v =>
      match node.labels with
      | some e =>
          { display := e.name v ++ [40] ++ formatUint v ++ [41], sort := v, numeric := true }
      | none => numberValue v
  | .arcs ns => { display := dotted ns }
  | .octets b =>
      match node.type with
      | some t => { display := renderOctets t b }
      | none => { display := [] }

/-! ## What the decoder does with each layout -/

section Decoder

variable {node : SmiNode} {implied : Bool} {fixed : Option Nat} {subs : List Nat}

theorem decodeOne_number (hl : node.layout = some .number) (v : Nat) (rest : List Nat) :
    decodeOne node (v :: rest) implied = .ok (valueOf node (.number v), 1) := by
  unfold SmiNode.layout at hl
  unfold decodeOne valueOf SmiNode.labels
  cases hnode : node.type with
  | none => simp
  | some t =>
      rw [hnode] at hl
      simp only [SmiType.layout] at hl
      cases hb : t.baseType <;> simp [hb] at hl ⊢
      cases t.enum <;> rfl

theorem decodeOne_arcs (hl : node.layout = some .arcs) (hne : subs ≠ []) :
    decodeOne node subs implied = (lengthOf subs implied none).map fun r =>
      (valueOf node (.arcs ((subs.drop r.2).take r.1)), r.2 + r.1) := by
  unfold SmiNode.layout at hl
  unfold decodeOne valueOf
  cases subs with
  | nil => exact absurd rfl hne
  | cons v rest =>
      cases hnode : node.type with
      | none => simp [hnode] at hl
      | some t =>
          rw [hnode] at hl
          simp only [SmiType.layout] at hl
          cases hb : t.baseType <;> simp [hb] at hl ⊢
          rfl

/-- What is made of the octets that were cut out. -/
def readOctets (node : SmiNode) (subs : List Nat) (r : Nat × Nat) :
    Except IndexError (IndexValue × Nat) :=
  let octets := (subs.drop r.2).take r.1
  match octets.find? fun sub => 255 < sub with
  | some sub => .error (.notAnOctet sub)
  | none => .ok (valueOf node (.octets octets), r.2 + r.1)

theorem decodeOne_octets (hl : node.layout = some (.octets fixed)) (hne : subs ≠ []) :
    decodeOne node subs implied = (lengthOf subs implied fixed).bind (readOctets node subs) := by
  unfold SmiNode.layout at hl
  unfold decodeOne readOctets valueOf
  cases subs with
  | nil => exact absurd rfl hne
  | cons v rest =>
      cases hnode : node.type with
      | none => simp [hnode] at hl
      | some t =>
          rw [hnode] at hl
          simp only [SmiType.layout] at hl
          cases hb : t.baseType <;> simp [hb] at hl ⊢
          all_goals
            rw [hl]
            rfl

theorem decodeOne_layout_none (hl : node.layout = none) :
    ∃ err, decodeOne node subs implied = .error err := by
  unfold SmiNode.layout at hl
  unfold decodeOne
  cases subs with
  | nil => exact ⟨_, rfl⟩
  | cons v rest =>
      cases hnode : node.type with
      | none => simp [hnode] at hl
      | some t =>
          rw [hnode] at hl
          simp only [SmiType.layout] at hl
          cases hb : t.baseType <;> simp [hb] at hl ⊢

end Decoder

/-! ## One index object -/

variable {subs : List Nat}

section One

variable {node : SmiNode} {implied : Bool} {fixed : Option Nat} {l : Layout} {c : Content}

theorem lengthOf_counted {ns rest : List Nat} (hfixed : ∀ n, fixed = some n → ns.length = n)
    (hread : fixed = none → implied = false → ns.length ≤ maxInt32)
    (himp : fixed = none → implied = true → rest = []) :
    ∃ n start, lengthOf (counted implied fixed ns ++ rest) implied fixed = .ok (n, start) ∧
      ((counted implied fixed ns ++ rest).drop start).take n = ns ∧
      start + n = (counted implied fixed ns).length := by
  cases fixed with
  | some n =>
      have hn := hfixed n rfl
      refine ⟨n, 0, ?_, ?_, ?_⟩
      · simp [lengthOf, counted, hn]
      · simp [counted, ← hn]
      · simp [counted, hn]
  | none =>
      cases implied with
      | true =>
          obtain rfl := himp rfl rfl
          exact ⟨ns.length, 0, by simp [lengthOf, counted], by simp [counted], by simp [counted]⟩
      | false =>
          have hle := hread rfl rfl
          refine ⟨ns.length, 1, ?_, ?_, ?_⟩
          · have hnot : ¬ maxInt32 < ns.length := by omega
            simp [lengthOf, counted, hnot]
          · simp [counted]
          · simp [counted, Nat.add_comm]

theorem lengthOf_eq_ok {n start : Nat} (hne : subs ≠ [])
    (h : lengthOf subs implied fixed = .ok (n, start)) :
    ∃ ns rest, subs = counted implied fixed ns ++ rest ∧ (subs.drop start).take n = ns ∧
      start + n = (counted implied fixed ns).length ∧ (∀ m, fixed = some m → ns.length = m) ∧
      (fixed = none → implied = false → ns.length ≤ maxInt32) := by
  unfold lengthOf at h
  cases fixed with
  | some m =>
      dsimp only at h
      split at h
      · cases h
      · rename_i hlen
        obtain ⟨rfl, rfl⟩ := Prod.mk.inj (Except.ok.inj h)
        refine ⟨subs.take m, subs.drop m, ?_, by simp, ?_, ?_, by simp⟩
        · simp [counted]
        · simp only [counted, Option.isSome_some, Bool.true_or, if_true, List.length_take]
          omega
        · intro k hk
          rw [List.length_take, ← Option.some.inj hk]
          omega
  | none =>
      dsimp only at h
      cases implied with
      | true =>
          rw [if_pos rfl] at h
          obtain ⟨rfl, rfl⟩ := Prod.mk.inj (Except.ok.inj h)
          exact ⟨subs, [], by simp [counted], by simp, by simp [counted], by simp, by simp⟩
      | false =>
          obtain ⟨len, tail, rfl⟩ := List.exists_cons_of_ne_nil hne
          rw [if_neg (by simp)] at h
          simp only [List.headD_cons, List.length_cons, Nat.add_sub_cancel] at h
          split at h
          · cases h
          · split at h
            · cases h
            · rename_i hmax hleft
              obtain ⟨rfl, rfl⟩ := Prod.mk.inj (Except.ok.inj h)
              have hlen : (tail.take len).length = len := by
                rw [List.length_take]
                omega
              refine ⟨tail.take len, tail.drop len, ?_, by simp, ?_, by simp, ?_⟩
              · simp [counted, hlen]
              · simp only [counted, Option.isSome_none, Bool.false_or, Bool.false_eq_true, if_false,
                  List.length_cons, hlen]
                omega
              · intro _ _
                omega

/-- **The decoder takes exactly what an object is spelled with.** -/
theorem decodeOne_wire {rest : List Nat} (hl : node.layout = some l) (hf : Fits l c)
    (hread : Readable implied l c) (hne : wire implied l c ++ rest ≠ [])
    (himp : implied = true → rest = []) :
    decodeOne node (wire implied l c ++ rest) implied
      = .ok (valueOf node c, (wire implied l c).length) := by
  cases l with
  | number =>
      cases c with
      | number v => exact decodeOne_number hl v rest
      | arcs ns => exact hf.elim
      | octets b => exact hf.elim
  | arcs =>
      cases c with
      | number v => exact hf.elim
      | octets b => exact hf.elim
      | arcs ns =>
          obtain ⟨n, start, hlen, hcut, hend⟩ := @lengthOf_counted _ none ns rest
            (by simp) (fun _ hi => hread _ (by simp [writtenLength, hi]))
            fun _ hi => himp hi
          rw [decodeOne_arcs hl hne]
          show (lengthOf (counted implied none ns ++ rest) implied none).map _ = _
          rw [hlen]
          show Except.ok (valueOf node (.arcs (((counted implied none ns ++ rest).drop start).take n)),
            start + n) = _
          rw [hcut, hend]
          rfl
  | octets fixed =>
      cases c with
      | number v => exact hf.elim
      | arcs ns => exact hf.elim
      | octets b =>
          obtain ⟨n, start, hlen, hcut, hend⟩ := @lengthOf_counted _ fixed b rest
            hf.2 (fun hn hi => hread _ (by simp [writtenLength, hi, hn]))
            fun _ hi => himp hi
          have hbytes : (b.find? fun sub => decide (255 < sub)) = none := by
            refine List.find?_eq_none.mpr fun sub hsub => ?_
            have := hf.1 sub hsub
            simpa using this
          rw [decodeOne_octets hl hne]
          show (lengthOf (counted implied fixed b ++ rest) implied fixed).bind
            (readOctets node (counted implied fixed b ++ rest)) = _
          rw [hlen]
          show readOctets node (counted implied fixed b ++ rest) (n, start) = _
          unfold readOctets
          dsimp only
          rw [hcut, hbytes, hend]
          rfl

theorem of_decodeOne {value : IndexValue} {used : Nat} (hsubs : ∀ n ∈ subs, n < 2 ^ 32)
    (h : decodeOne node subs implied = .ok (value, used)) :
    ∃ l c rest, node.layout = some l ∧ Fits l c ∧ Readable implied l c ∧
      subs = wire implied l c ++ rest ∧ value = valueOf node c ∧
      used = (wire implied l c).length := by
  have hne : subs ≠ [] := by
    rintro rfl
    exact absurd h (by simp [decodeOne])
  cases hl : node.layout with
  | none =>
      obtain ⟨err, herr⟩ := @decodeOne_layout_none _ implied subs hl
      rw [herr] at h
      cases h
  | some l =>
      cases l with
      | number =>
          obtain ⟨v, rest, rfl⟩ := List.exists_cons_of_ne_nil hne
          rw [decodeOne_number hl] at h
          obtain ⟨rfl, rfl⟩ := Prod.mk.inj (Except.ok.inj h)
          exact ⟨.number, .number v, rest, rfl, hsubs v List.mem_cons_self,
            by simp [Readable, writtenLength], rfl, rfl, rfl⟩
      | arcs =>
          rw [decodeOne_arcs hl hne] at h
          cases hlen : lengthOf subs implied none with
          | error err => exact absurd (hlen ▸ h) (by simp [Except.map])
          | ok r =>
              obtain ⟨n, start⟩ := r
              rw [hlen] at h
              obtain ⟨rfl, rfl⟩ := Prod.mk.inj (Except.ok.inj h)
              obtain ⟨ns, rest, hsplit, hcut, hend, _, hread⟩ := lengthOf_eq_ok hne hlen
              refine ⟨.arcs, .arcs ns, rest, rfl, ?_, ?_, hsplit, by rw [hcut], hend⟩
              · intro m hm
                rw [← hcut] at hm
                exact hsubs m (List.drop_subset _ _ (List.take_subset _ _ hm))
              · intro m hm
                cases implied with
                | true => exact absurd hm (by simp [writtenLength])
                | false =>
                    rw [← Option.some.inj hm]
                    exact hread rfl rfl
      | octets fixed =>
          rw [decodeOne_octets hl hne] at h
          cases hlen : lengthOf subs implied fixed with
          | error err => exact absurd (hlen ▸ h) (by simp [Except.bind])
          | ok r =>
              obtain ⟨n, start⟩ := r
              rw [hlen] at h
              change readOctets node subs (n, start) = _ at h
              unfold readOctets at h
              dsimp only at h
              split at h
              · cases h
              · rename_i hbytes
                obtain ⟨rfl, rfl⟩ := Prod.mk.inj (Except.ok.inj h)
                obtain ⟨b, rest, hsplit, hcut, hend, hfixed, hread⟩ := lengthOf_eq_ok hne hlen
                rw [hcut] at hbytes ⊢
                refine ⟨.octets fixed, .octets b, rest, rfl, ⟨?_, hfixed⟩, ?_, hsplit, rfl, hend⟩
                · intro c hc
                  simpa using List.find?_eq_none.mp hbytes c hc
                · intro m hm
                  cases fixed with
                  | some k => exact absurd hm (by simp [writtenLength])
                  | none =>
                      cases implied with
                      | true => exact absurd hm (by simp [writtenLength])
                      | false =>
                          rw [← Option.some.inj hm]
                          exact hread rfl rfl

end One

/-! ## A row -/

section Row

variable {implied : Bool}

/-- The contents of a row, one behind the other; the last may be IMPLIED. -/
inductive Spells (implied : Bool) : List SmiNode → List Content → List Nat → Prop
  | nil : Spells implied [] [] []
  | cons {node : SmiNode} {rest : List SmiNode} {l : Layout} {c : Content} {cs : List Content}
      {more : List Nat} :
      node.layout = some l → Fits l c → Readable (implied && rest.isEmpty) l c →
      Spells implied rest cs more →
      Spells implied (node :: rest) (c :: cs) (wire (implied && rest.isEmpty) l c ++ more)

/-- What a row is shown as. -/
def shown (nodes : List SmiNode) (cs : List Content) : List IndexValue :=
  List.zipWith (fun node c => { valueOf node c with name := node.name }) nodes cs

theorem Spells.eq_nil {rest : List SmiNode} {cs : List Content} {more : List Nat}
    (h : Spells implied rest cs more) (hlast : (implied && rest.isEmpty) = true) : more = [] := by
  rw [Bool.and_eq_true] at hlast
  obtain rfl := List.isEmpty_iff.mp hlast.2
  cases h
  rfl

/-- **What decodes to the end is spelled**, and its contents are what is shown. -/
theorem spells_of_decodeParts {nodes : List SmiNode} {parts : List IndexValue}
    (hsubs : ∀ n ∈ subs, n < 2 ^ 32) (h : decodeParts implied nodes subs = (parts, .ok [])) :
    ∃ cs, Spells implied nodes cs subs ∧ parts = shown nodes cs := by
  induction nodes generalizing subs parts with
  | nil =>
      obtain ⟨rfl, hleft⟩ := Prod.mk.inj h
      obtain rfl := Except.ok.inj hleft
      exact ⟨[], .nil, rfl⟩
  | cons node rest ih =>
      unfold decodeParts at h
      split at h
      · exact absurd (Prod.mk.inj h).2 (by simp)
      · rename_i value used hone
        obtain ⟨l, c, more, hl, hf, hread, rfl, rfl, rfl⟩ := of_decodeOne hsubs hone
        rw [List.drop_left] at h
        obtain ⟨rfl, hleft⟩ := Prod.mk.inj h
        obtain ⟨cs, hspells, hparts⟩ := ih (fun n hn => hsubs n (List.mem_append_right _ hn))
          (Prod.ext rfl hleft)
        refine ⟨c :: cs, .cons hl hf hread hspells, ?_⟩
        exact congrArg (List.cons _) hparts

end Row

section One

variable {node : SmiNode} {implied : Bool} {fixed : Option Nat} {l : Layout} {c : Content}

/-! ## What the encoder writes -/

theorem withLength_eq_ok {ns enc : List Nat} (h : withLength ns implied fixed = .ok enc) :
    enc = counted implied fixed ns ∧ ∀ n, fixed = some n → ns.length = n := by
  unfold withLength at h
  cases fixed with
  | some n =>
      dsimp only at h
      split at h
      · cases h
      · rename_i hlen
        obtain rfl := Except.ok.inj h
        refine ⟨by simp [counted], fun m hm => ?_⟩
        rw [← Option.some.inj hm]
        exact not_not.mp hlen
  | none =>
      dsimp only at h
      cases implied with
      | true =>
          obtain rfl := Except.ok.inj h
          exact ⟨by simp [counted], by simp⟩
      | false =>
          rw [if_neg (by simp)] at h
          split at h
          · cases h
          · obtain rfl := Except.ok.inj h
            exact ⟨by simp [counted], by simp⟩

theorem withLength_eq_counted {ns : List Nat} (hlen : ∀ n, fixed = some n → ns.length = n)
    (hshort : fixed = none → implied = false → ns.length < 2 ^ 32) :
    withLength ns implied fixed = .ok (counted implied fixed ns) := by
  unfold withLength counted
  cases fixed with
  | some n => simp [hlen n rfl]
  | none =>
      cases implied with
      | true => simp
      | false =>
          have hnot : ¬ 2 ^ 32 ≤ ns.length := by
            have := hshort rfl rfl
            omega
          simp only [Bool.false_eq_true, if_false, hnot]
          rfl

theorem parseSubIDs_eq_ok {s : Octets} (h : parseSubIDs s = .ok subs) :
    subs ≠ [] ∧ ∀ n ∈ subs, n < 2 ^ 32 := by
  unfold parseSubIDs at h
  dsimp only at h
  split at h
  · cases h
  · split at h
    · rename_i hmap
      obtain rfl := Except.ok.inj h
      constructor
      · rintro rfl
        have hlen := length_of_mapM hmap
        exact List.splitOn_ne_nil _ _ (List.length_eq_zero_iff.mp hlen)
      · intro n hn
        obtain ⟨_, _, hp⟩ := mem_of_mapM hmap hn
        exact lt_of_parseUint hp
    · cases h

theorem hexValue_lt {b : UInt8} {d : Nat} (h : hexValue b = some d) : d < 16 := by
  -- digits, small letters and capital ones, each up to the last of them
  unfold hexValue at h
  repeat' split at h
  rotate_right
  · cases h
  all_goals
    rename_i hb
    have := UInt8.le_iff_toNat_le.mp hb.2
    obtain rfl := Option.some.inj h
    simp at this
    omega

theorem parseHexGroup_eq_some {g : Octets} {n : Nat} (h : parseHexGroup g = some n) :
    n ≤ 255 ∧ g.length = 2 := by
  unfold parseHexGroup at h
  split at h
  · obtain ⟨high, hhigh, hrest⟩ := Option.bind_eq_some_iff.mp h
    obtain ⟨low, hlow, heq⟩ := Option.bind_eq_some_iff.mp hrest
    obtain rfl := Option.some.inj heq
    have h1 := hexValue_lt hhigh
    have h2 := hexValue_lt hlow
    exact ⟨by omega, rfl⟩
  · cases h

theorem parseHexOctets_eq_some {s : Octets} {hex : List Nat} (h : parseHexOctets s = some hex) :
    ∃ sep, (s.splitOn sep).mapM parseHexGroup = some hex := by
  unfold parseHexOctets at h
  split at h
  · exact ⟨58, h⟩
  · split at h
    · exact ⟨45, h⟩
    · cases h

theorem octetsOf_eq_ok {t : SmiType} {s : Octets} {b : List Nat} (hs : s ≠ [])
    (h : octetsOf t s = .ok b) : b ≠ [] ∧ ∀ c ∈ b, c ≤ 255 := by
  unfold octetsOf at h
  split at h
  · unfold parseDottedQuad at h
    dsimp only at h
    split at h
    · cases h
    · rename_i hlen
      split at h
      · rename_i hmap
        obtain rfl := Except.ok.inj h
        have hfour := length_of_mapM hmap
        constructor
        · rintro rfl
          simp at hfour hlen
        · intro c hc
          obtain ⟨_, _, hp⟩ := mem_of_mapM hmap hc
          have := lt_of_parseUint hp
          omega
      · cases h
  · split at h
    · rename_i hhex
      obtain rfl := Except.ok.inj h
      obtain ⟨sep, hmap⟩ := parseHexOctets_eq_some hhex
      constructor
      · rintro rfl
        have hlen := length_of_mapM hmap
        exact List.splitOn_ne_nil _ _ (List.length_eq_zero_iff.mp hlen)
      · intro c hc
        obtain ⟨_, _, hp⟩ := mem_of_mapM hmap hc
        exact (parseHexGroup_eq_some hp).1
    · obtain rfl := Except.ok.inj h
      constructor
      · simpa using hs
      · intro c hc
        obtain ⟨x, _, rfl⟩ := List.mem_map.mp hc
        have := x.toNat_lt
        omega

theorem encodeNumber_eq_ok {s : Octets} {enc : List Nat} (h : encodeNumber s = .ok enc) :
    ∃ v, v < 2 ^ 32 ∧ enc = [v] := by
  unfold encodeNumber at h
  split at h
  · rename_i hp
    exact ⟨_, lt_of_parseUint hp, (Except.ok.inj h).symm⟩
  · cases h

variable {value : Octets}

theorem encodeOne_number (hl : node.layout = some .number) (hv : value ≠ []) :
    encodeOne node value implied =
      match node.labels.bind fun e => e.value value with
      | some v => .ok [(v % 2 ^ 32).toNat]
      | none => encodeNumber value := by
  unfold SmiNode.layout at hl
  unfold encodeOne SmiNode.labels
  cases hnode : node.type with
  | none => simp [hv]
  | some t =>
      rw [hnode] at hl
      simp only [SmiType.layout] at hl
      cases hb : t.baseType <;> simp [hb] at hl ⊢ <;> simp [hv] <;> rfl

theorem encodeOne_arcs (hl : node.layout = some .arcs) (hv : value ≠ []) :
    encodeOne node value implied
      = (parseSubIDs value).bind fun subs => withLength subs implied none := by
  unfold SmiNode.layout at hl
  unfold encodeOne
  cases hnode : node.type with
  | none => simp [hnode] at hl
  | some t =>
      rw [hnode] at hl
      simp only [SmiType.layout] at hl
      cases hb : t.baseType <;> simp [hb] at hl ⊢
      simp [hv]
      rfl

theorem encodeOne_octets (hl : node.layout = some (.octets fixed)) (hv : value ≠ []) :
    ∃ t, node.type = some t ∧ t.fixed = fixed ∧
      encodeOne node value implied
        = (octetsOf t value).bind fun octets => withLength octets implied fixed := by
  unfold SmiNode.layout at hl
  unfold encodeOne
  cases hnode : node.type with
  | none => simp [hnode] at hl
  | some t =>
      rw [hnode] at hl
      simp only [SmiType.layout] at hl
      refine ⟨t, rfl, ?_⟩
      cases hb : t.baseType <;> simp [hb] at hl ⊢
      all_goals
        subst hl
        simp [hv]
        rfl

theorem type_of_layout (hl : node.layout = some (.octets fixed)) :
    ∃ t, node.type = some t ∧ t.fixed = fixed := by
  obtain ⟨t, hnode, hfixed, _⟩ := @encodeOne_octets _ false _ [0] hl (by simp)
  exact ⟨t, hnode, hfixed⟩

theorem encodeOne_layout_none (hl : node.layout = none) :
    ∃ err, encodeOne node value implied = .error err := by
  unfold SmiNode.layout at hl
  unfold encodeOne
  by_cases hv : value = []
  · exact ⟨.noValue, by simp [hv]⟩
  · cases hnode : node.type with
    | none => simp [hnode] at hl
    | some t =>
        rw [hnode] at hl
        simp only [SmiType.layout] at hl
        cases hb : t.baseType <;> simp [hb] at hl ⊢ <;> simp [hv]

/-- A text that the decoder will be able to read the length of, where its length is written. -/
def ShortEnough (implied : Bool) (node : SmiNode) (value : Octets) : Prop :=
  implied = false →
    match node.layout, node.type with
    | some .arcs, _ => ∀ ns, parseSubIDs value = .ok ns → ns.length ≤ maxInt32
    | some (.octets none), some t => ∀ b, octetsOf t value = .ok b → b.length ≤ maxInt32
    | _, _ => True

theorem lt_of_mem_counted {ns enc : List Nat} (h : withLength ns implied fixed = .ok enc)
    (hns : ∀ n ∈ ns, n < 2 ^ 32) : ∀ n ∈ enc, n < 2 ^ 32 := by
  unfold withLength at h
  intro n hn
  split at h
  · split at h
    · cases h
    · obtain rfl := Except.ok.inj h
      exact hns n hn
  · split at h
    · obtain rfl := Except.ok.inj h
      exact hns n hn
    · split at h
      · cases h
      · obtain rfl := Except.ok.inj h
        rcases List.mem_cons.mp hn with rfl | hn
        · omega
        · exact hns n hn

/-- An index object as the encoder writes it. -/
structure Written (implied : Bool) (node : SmiNode) (value : Octets) (enc : List Nat) (l : Layout)
    (c : Content) : Prop where
  layout : node.layout = some l
  fits : Fits l c
  wire : enc = wire implied l c
  ne_nil : enc ≠ []
  lt : ∀ n ∈ enc, n < 2 ^ 32
  short : ShortEnough implied node value ↔ Readable implied l c

/-- **The encoder writes what spells an index object.** -/
theorem of_encodeOne {enc : List Nat} (h : encodeOne node value implied = .ok enc) :
    ∃ l c, Written implied node value enc l c := by
  have hv : value ≠ [] := by
    rintro rfl
    exact absurd h (by simp [encodeOne])
  cases hl : node.layout with
  | none =>
      obtain ⟨err, herr⟩ := @encodeOne_layout_none _ implied value hl
      rw [herr] at h
      cases h
  | some l =>
      cases l with
      | number =>
          have hshort : ∀ v, ShortEnough implied node value ↔ Readable implied .number (.number v) := by
            intro v
            simp [ShortEnough, Readable, writtenLength, hl]
          rw [encodeOne_number hl hv] at h
          split at h
          · rename_i v _
            obtain rfl := Except.ok.inj h
            have hlt : (v % 2 ^ 32).toNat < 2 ^ 32 := by omega
            exact ⟨.number, .number _, hl, hlt, rfl, by simp, by simpa using hlt, hshort _⟩
          · obtain ⟨v, hlt, rfl⟩ := encodeNumber_eq_ok h
            exact ⟨.number, .number v, hl, hlt, rfl, by simp, by simpa using hlt, hshort v⟩
      | arcs =>
          rw [encodeOne_arcs hl hv] at h
          cases hp : parseSubIDs value with
          | error err => exact absurd (hp ▸ h) (by simp [Except.bind])
          | ok subs =>
              rw [hp] at h
              change withLength subs implied none = .ok enc at h
              obtain ⟨hne, hlt⟩ := parseSubIDs_eq_ok hp
              have henc := lt_of_mem_counted h hlt
              obtain ⟨rfl, _⟩ := withLength_eq_ok h
              refine ⟨.arcs, .arcs subs, hl, hlt, rfl, ?_, henc, ?_⟩
              · unfold counted
                split
                · exact hne
                · simp
              · cases implied <;> simp [ShortEnough, Readable, writtenLength, hl, hp]
      | octets fixed =>
          obtain ⟨t, hnode, hfix, heq⟩ := @encodeOne_octets _ implied _ _ hl hv
          rw [heq] at h
          cases hp : octetsOf t value with
          | error err => exact absurd (hp ▸ h) (by simp [Except.bind])
          | ok b =>
              rw [hp] at h
              change withLength b implied fixed = .ok enc at h
              obtain ⟨hne, hbyte⟩ := octetsOf_eq_ok hv hp
              have hsmall : ∀ n ∈ b, n < 2 ^ 32 := by
                intro n hn
                have := hbyte n hn
                omega
              have henc := lt_of_mem_counted h hsmall
              obtain ⟨rfl, hfixed⟩ := withLength_eq_ok h
              refine ⟨.octets fixed, .octets b, hl, ⟨hbyte, hfixed⟩, rfl, ?_, henc, ?_⟩
              · unfold counted
                split
                · exact hne
                · simp
              · cases implied <;> cases fixed <;>
                  simp [ShortEnough, Readable, writtenLength, hl, hnode, hp]

theorem counted_append_inj {ns ms r r' : List Nat} (hlen : ∀ n, fixed = some n → ns.length = n)
    (hlen' : ∀ n, fixed = some n → ms.length = n) (himp : implied = true → r = [] ∧ r' = [])
    (h : counted implied fixed ns ++ r = counted implied fixed ms ++ r') : ns = ms ∧ r = r' := by
  unfold counted at h
  cases fixed with
  | some n =>
      simp only [Option.isSome_some, Bool.true_or, if_true] at h
      exact List.append_inj h ((hlen n rfl).trans (hlen' n rfl).symm)
  | none =>
      cases implied with
      | true =>
          obtain ⟨rfl, rfl⟩ := himp rfl
          simpa using h
      | false =>
          simp only [Option.isSome_none, Bool.or_self, Bool.false_eq_true, if_false,
            List.cons_append, List.cons.injEq] at h
          exact List.append_inj h.2 h.1

/-- **What follows an object tells nothing about it**: its sub-identifiers determine it. -/
theorem wire_append_inj {c' : Content} {r r' : List Nat} (hf : Fits l c) (hf' : Fits l c')
    (himp : implied = true → r = [] ∧ r' = [])
    (h : wire implied l c ++ r = wire implied l c' ++ r') : c = c' ∧ r = r' := by
  cases l with
  | number =>
      cases c with
      | arcs ns => exact hf.elim
      | octets b => exact hf.elim
      | number v =>
          cases c' with
          | arcs ns => exact hf'.elim
          | octets b => exact hf'.elim
          | number v' =>
              obtain ⟨rfl, rfl⟩ := List.cons.inj h
              exact ⟨rfl, rfl⟩
  | arcs =>
      cases c with
      | number v => exact hf.elim
      | octets b => exact hf.elim
      | arcs ns =>
          cases c' with
          | number v => exact hf'.elim
          | octets b => exact hf'.elim
          | arcs ms =>
              obtain ⟨rfl, rfl⟩ := counted_append_inj (by simp) (by simp) himp h
              exact ⟨rfl, rfl⟩
  | octets fixed =>
      cases c with
      | number v => exact hf.elim
      | arcs ns => exact hf.elim
      | octets b =>
          cases c' with
          | number v => exact hf'.elim
          | arcs ns => exact hf'.elim
          | octets b' =>
              obtain ⟨rfl, rfl⟩ := counted_append_inj hf.2 hf'.2 himp h
              exact ⟨rfl, rfl⟩

end One

end SnmpLens.Mib
