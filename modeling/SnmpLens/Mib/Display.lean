import SnmpLens.Mib.Encoded

/-!
# What is shown encodes

The other way round: a row is shown, and the texts it is shown as are encoded again.
The decoder picks a form by what the octets are and the encoder guesses the form from
the text. `Faithful` says of which objects it guesses right: it never does of a number
shown with its label, of no arcs or no octets at all, of one octet that is shown in
hexadecimal, nor of text that has a blank at an end or is itself hexadecimal pairs.
-/

namespace SnmpLens.Mib

open Utf8 Strings

/-! ## Texts the encoder would take for something else -/

/-- Two hexadecimal digits. -/
def isHexPair (g : Octets) : Bool := (parseHexGroup g).isSome

/-- Pairs of hexadecimal digits, between colons or else between hyphens. -/
def looksHex (s : Octets) : Bool :=
  if s.contains 58 then (s.splitOn 58).all isHexPair
  else s.contains 45 && (s.splitOn 45).all isHexPair

/-- Octets as the text they are. -/
def textOf (b : List Nat) : Octets := b.map UInt8.ofNat

/-- An index object whose text means the object itself to the encoder. -/
def Faithful (node : SmiNode) : Content → Prop
  | .number _ => node.labels = none
  | .arcs ns => ns ≠ []
  | .octets b =>
      (∃ t, node.type = some t ∧ t.isIpAddress = true) ∨
        if printable b then
          b.head? ≠ some 0x20 ∧ b.getLast? ≠ some 0x20 ∧ looksHex (textOf b) = false
        else 2 ≤ b.length

/-- The labels of an enumeration have no parenthesis in them. -/
def Enum.Plain (e : Enum) : Prop := ∀ s v, e.value s = some v → 40 ∉ s

/-! ## Hexadecimal -/

theorem isSome_mapM {α β : Type} (f : α → Option β) (xs : List α) :
    (xs.mapM f).isSome = xs.all fun x => (f x).isSome := by
  induction xs with
  | nil => rfl
  | cons x xs ih =>
      rw [List.mapM_cons, List.all_cons, ← ih]
      cases f x with
      | none => rfl
      | some y => cases xs.mapM f <;> rfl

theorem looksHex_eq (s : Octets) : looksHex s = (parseHexOctets s).isSome := by
  unfold looksHex parseHexOctets isHexPair
  split
  · rw [isSome_mapM]
  · split
    · rename_i h
      rw [isSome_mapM, h, Bool.true_and]
    · rename_i h
      rw [Bool.not_eq_true] at h
      rw [h]
      rfl

theorem length_intercalate_pairs {sep : UInt8} {gs : List Octets} (hne : gs ≠ [])
    (h : ∀ g ∈ gs, g.length = 2) : ([sep].intercalate gs).length + 1 = 3 * gs.length := by
  induction gs with
  | nil => exact absurd rfl hne
  | cons g gs ih =>
      have hg := h g List.mem_cons_self
      cases gs with
      | nil => simp [List.intercalate, hg]
      | cons k gs =>
          have hrest := ih (by simp) fun g hg => h g (List.mem_cons_of_mem _ hg)
          have hsplit : [sep].intercalate (g :: k :: gs)
              = g ++ sep :: [sep].intercalate (k :: gs) := by simp [List.intercalate]
          rw [hsplit, List.length_append, List.length_cons, hg]
          simp only [List.length_cons] at hrest ⊢
          omega

theorem length_lt_of_parseHexOctets {s : Octets} {hex : List Nat}
    (h : parseHexOctets s = some hex) : hex.length < s.length := by
  obtain ⟨sep, hmap⟩ := parseHexOctets_eq_some h
  have hpairs : ∀ g ∈ s.splitOn sep, g.length = 2 :=
    ((List.forall₂_and_left _ _).mp ((forall₂_of_mapM hmap).imp fun g n hn =>
      ⟨(parseHexGroup_eq_some hn).2, hn⟩)).1
  have hlen := @length_intercalate_pairs sep _ (List.splitOn_ne_nil _ _) hpairs
  rw [List.intercalate_splitOn, length_of_mapM hmap] at hlen
  omega

theorem hexValue_hexDigit {d : Nat} (h : d < 16) : hexValue (hexDigit d) = some d := by
  have hall : ∀ d < 16, hexValue (hexDigit d) = some d := by decide
  exact hall d h

theorem hexDigit_solid {d : Nat} (h : d < 16) :
    Solid (hexDigit d) ∧ hexDigit d ≠ 58 ∧ hexDigit d ≠ 45 := by
  have hall : ∀ d < 16, Solid (hexDigit d) ∧ hexDigit d ≠ 58 ∧ hexDigit d ≠ 45 := by decide
  exact hall d h

theorem parseHexGroup_hexOctet {c : Nat} (h : c ≤ 255) : parseHexGroup (hexOctet c) = some c := by
  have hhigh := hexValue_hexDigit (d := c / 16) (by omega)
  have hlow := hexValue_hexDigit (d := c % 16) (by omega)
  unfold parseHexGroup hexOctet
  dsimp only
  rw [hhigh, hlow]
  show some (c / 16 * 16 + c % 16) = some c
  rw [Nat.div_add_mod']

theorem solid_of_mem_hexOctet {c : Nat} (h : c ≤ 255) {x : UInt8} (hx : x ∈ hexOctet c) :
    Solid x ∧ x ≠ 58 ∧ x ≠ 45 := by
  unfold hexOctet at hx
  rcases List.mem_cons.mp hx with rfl | hx
  · exact hexDigit_solid (by omega)
  · rw [List.mem_singleton.mp hx]
    exact hexDigit_solid (by omega)

theorem parseHexOctets_hexOctet {c : Nat} (h : c ≤ 255) : parseHexOctets (hexOctet c) = none := by
  have hcolon : ¬ (hexOctet c).contains 58 = true := fun hin =>
    (solid_of_mem_hexOctet h (List.contains_iff_mem.mp hin)).2.1 rfl
  have hhyphen : ¬ (hexOctet c).contains 45 = true := fun hin =>
    (solid_of_mem_hexOctet h (List.contains_iff_mem.mp hin)).2.2 rfl
  unfold parseHexOctets
  rw [if_neg hcolon, if_neg hhyphen]

/-- Octets in hexadecimal, as they are shown when they are no text. -/
def hexText (b : List Nat) : Octets := [58].intercalate (b.map hexOctet)

variable {b : List Nat}

theorem solid_of_mem_hexText (hb : ∀ c ∈ b, c ≤ 255) {x : UInt8} (hx : x ∈ hexText b) :
    Solid x := by
  unfold hexText at hx
  rcases List.mem_flatten.mp hx with ⟨piece, hpiece, hx⟩
  have hcolon : Solid 58 := by decide
  have hpieces : ∀ (gs : List Octets) (piece : Octets), piece ∈ gs.intersperse [58] →
      piece = [58] ∨ piece ∈ gs := by
    intro gs
    induction gs with
    | nil => simp
    | cons g gs ih =>
        intro piece hpiece
        cases gs with
        | nil => exact .inr hpiece
        | cons k gs =>
            rcases List.mem_cons.mp hpiece with rfl | hpiece
            · exact .inr List.mem_cons_self
            · rcases List.mem_cons.mp hpiece with rfl | hpiece
              · exact .inl rfl
              · exact (ih piece hpiece).imp id (List.mem_cons_of_mem _)
  rcases hpieces _ _ hpiece with rfl | hpiece
  · rw [List.mem_singleton.mp hx]
    exact hcolon
  · obtain ⟨c, hc, rfl⟩ := List.mem_map.mp hpiece
    exact (solid_of_mem_hexOctet (hb c hc) hx).1

/-- **Two octets and more read back from hexadecimal.** -/
theorem parseHexOctets_hexText (hb : ∀ c ∈ b, c ≤ 255) (hlen : 2 ≤ b.length) :
    parseHexOctets (hexText b) = some b := by
  have hcolon : (hexText b).contains 58 = true := by
    obtain ⟨c, d, rest, rfl⟩ : ∃ c d rest, b = c :: d :: rest := by
      match b, hlen with
      | c :: d :: rest, _ => exact ⟨c, d, rest, rfl⟩
    rw [List.contains_iff_mem]
    simp [hexText, List.intercalate]
  have hsplit : (hexText b).splitOn 58 = b.map hexOctet := by
    refine List.splitOn_intercalate _ ?_ ?_
    · intro g hg
      obtain ⟨c, hc, rfl⟩ := List.mem_map.mp hg
      exact fun h => (solid_of_mem_hexOctet (hb c hc) h).2.1 rfl
    · rw [Ne, List.map_eq_nil_iff]
      rintro rfl
      cases hlen
  have hmap : ∀ (b : List Nat), (∀ c ∈ b, c ≤ 255) →
      (b.map hexOctet).mapM parseHexGroup = some b := by
    intro b hb
    induction b with
    | nil => rfl
    | cons c b ih =>
        rw [List.map_cons, List.mapM_cons, parseHexGroup_hexOctet (hb c List.mem_cons_self),
          ih fun d hd => hb d (List.mem_cons_of_mem _ hd)]
        rfl
  unfold parseHexOctets
  rw [if_pos hcolon, hsplit, hmap b hb]

/-! ## Text -/

theorem textOf_toNat (hb : ∀ c ∈ b, c ≤ 255) :
    (textOf b).map UInt8.toNat = b := by
  unfold textOf
  rw [List.map_map]
  refine (List.map_congr_left fun c hc => ?_).trans (List.map_id b)
  have hle := hb c hc
  show (UInt8.ofNat c).toNat = c
  rw [UInt8.toNat_ofNat']
  omega

theorem length_textOf (b : List Nat) : (textOf b).length = b.length := List.length_map _

theorem parseDottedQuad_dotted (hb : ∀ c ∈ b, c ≤ 255) (hlen : b.length = 4) :
    parseDottedQuad (dotted b) = .ok b := by
  have hne : b ≠ [] := by
    rintro rfl
    cases hlen
  have hmap : (b.map formatUint).mapM (parseUint 8) = some b :=
    mapM_parseUint fun c hc => Nat.lt_succ_of_le (hb c hc)
  unfold parseDottedQuad
  rw [splitOn_dotted hne]
  dsimp only
  rw [if_neg (by simp [hlen]), hmap]

theorem octetsOf_eq_ok_iff {t : SmiType} {s : Octets} (ht : t.isIpAddress = false) :
    octetsOf t s = .ok b ↔
      parseHexOctets s = some b ∨ (looksHex s = false ∧ s.map UInt8.toNat = b) := by
  rw [looksHex_eq]
  unfold octetsOf
  rw [ht, if_neg (by simp)]
  cases parseHexOctets s <;> simp

theorem mem_textOf (hp : printable b = true) {x : UInt8} (hx : x ∈ textOf b) :
    x = 32 ∨ Solid x := by
  obtain ⟨c, hc, rfl⟩ := List.mem_map.mp hx
  unfold printable at hp
  rw [Bool.and_eq_true, List.all_eq_true] at hp
  have hrange : 0x20 ≤ c ∧ c ≤ 0x7e := by simpa using hp.2 c hc
  have hval : (UInt8.ofNat c).toNat = c := by
    rw [UInt8.toNat_ofNat']
    omega
  by_cases hblank : c = 32
  · exact .inl (by rw [hblank]; rfl)
  · exact .inr (solid_of_visible (by omega) (by omega))

theorem ofNat_eq_blank {c : Nat} (h : c ≤ 255) : UInt8.ofNat c = 32 ↔ c = 32 := by
  constructor
  · intro heq
    have := congrArg UInt8.toNat heq
    rw [UInt8.toNat_ofNat'] at this
    simp at this
    omega
  · rintro rfl
    rfl

theorem length_trimSpace_textOf (hb : ∀ c ∈ b, c ≤ 255) (hp : printable b = true) :
    (trimSpace (textOf b) = textOf b ∧ b.head? ≠ some 0x20 ∧ b.getLast? ≠ some 0x20) ∨
      ((trimSpace (textOf b)).length < b.length ∧
        ¬ (b.head? ≠ some 0x20 ∧ b.getLast? ≠ some 0x20)) := by
  have hspace : [32] ∈ spaces := by decide
  by_cases hhead : b.head? = some 0x20
  · obtain ⟨rest, rfl⟩ : ∃ rest, b = 0x20 :: rest := List.head?_eq_some_iff.mp hhead
    refine .inr ⟨?_, fun h => h.1 hhead⟩
    rw [← length_textOf (0x20 :: rest)]
    exact length_trimSpace_lt hspace (.inl ⟨textOf rest, rfl⟩)
  · by_cases hlast : b.getLast? = some 0x20
    · obtain ⟨front, rfl⟩ : ∃ front, b = front ++ [0x20] := List.getLast?_eq_some_iff.mp hlast
      refine .inr ⟨?_, fun h => h.2 hlast⟩
      rw [← length_textOf (front ++ [0x20])]
      exact length_trimSpace_lt hspace (.inr ⟨textOf front, by simp [textOf]⟩)
    · refine .inl ⟨trimSpace_eq_self ?_ ?_, hhead, hlast⟩
      · intro x hx
        refine (mem_textOf hp (List.mem_of_mem_head? hx)).resolve_left ?_
        rintro rfl
        rw [textOf, List.head?_map] at hx
        obtain ⟨c, hc, heq⟩ := Option.map_eq_some_iff.mp hx
        rw [(ofNat_eq_blank (hb c (List.mem_of_mem_head? hc))).mp heq] at hc
        exact hhead hc
      · intro x hx
        refine (mem_textOf hp (List.mem_of_mem_getLast? hx)).resolve_left ?_
        rintro rfl
        rw [textOf, List.getLast?_map] at hx
        obtain ⟨c, hc, heq⟩ := Option.map_eq_some_iff.mp hx
        rw [(ofNat_eq_blank (hb c (List.mem_of_mem_getLast? hc))).mp heq] at hc
        exact hlast hc

/-! ## One index object -/

section One

variable {node : SmiNode} {implied : Bool} {fixed : Option Nat} {l : Layout} {c : Content}

/-- **Octets that are shown read back** unless they are taken for something else. -/
theorem octetsOf_shown {t : SmiType} (hnode : node.type = some t) (hb : ∀ c ∈ b, c ≤ 255)
    (hfixed : ∀ n, t.fixed = some n → b.length = n) :
    (trimSpace (renderOctets t b) ≠ [] ∧ octetsOf t (trimSpace (renderOctets t b)) = .ok b) ↔
      Faithful node (.octets b) := by
  have hfaithful : Faithful node (.octets b) ↔ t.isIpAddress = true ∨
      if printable b then
        b.head? ≠ some 0x20 ∧ b.getLast? ≠ some 0x20 ∧ looksHex (textOf b) = false
      else 2 ≤ b.length := by
    simp [Faithful, hnode]
  rw [hfaithful]
  cases ht : t.isIpAddress with
  | true =>
      have hlen : b.length = 4 := hfixed 4 (by simp [SmiType.fixed, ht])
      have hne : b ≠ [] := by
        rintro rfl
        cases hlen
      have hshow : renderOctets t b = dotted b := by simp [renderOctets, ht, hlen]
      rw [hshow, trimSpace_dotted]
      refine iff_of_true ⟨dotted_ne_nil hne, ?_⟩ (.inl rfl)
      unfold octetsOf
      rw [if_pos ht, parseDottedQuad_dotted hb hlen]
  | false =>
      rw [octetsOf_eq_ok_iff ht]
      cases hp : printable b with
      | true =>
          have hshow : renderOctets t b = textOf b := by simp [renderOctets, ht, hp, textOf]
          have hne : b ≠ [] := by
            rintro rfl
            cases hp
          have hlong : ∀ s hex, parseHexOctets s = some hex → s.length ≤ b.length → hex ≠ b := by
            intro s hex hhex hle heq
            have := length_lt_of_parseHexOctets hhex
            rw [heq] at this
            omega
          rw [hshow]
          rcases length_trimSpace_textOf hb hp with ⟨htrim, hhead, hlast⟩ | ⟨hlt, hends⟩
          · rw [htrim]
            constructor
            · rintro ⟨_, hhex | ⟨hlooks, _⟩⟩
              · exact absurd rfl (hlong _ _ hhex (Nat.le_of_eq (length_textOf b)))
              · exact .inr ⟨hhead, hlast, hlooks⟩
            · rintro (h | h)
              · cases h
              · exact ⟨by simpa [textOf] using hne, .inr ⟨h.2.2, textOf_toNat hb⟩⟩
          · refine iff_of_false ?_ ?_
            · rintro ⟨_, hhex | ⟨_, heq⟩⟩
              · exact hlong _ _ hhex (Nat.le_of_lt hlt) rfl
              · rw [← congrArg List.length heq, List.length_map] at hlt
                omega
            · rintro (h | h)
              · cases h
              · exact hends ⟨h.1, h.2.1⟩
      | false =>
          have hshow : renderOctets t b = hexText b := by simp [renderOctets, ht, hp, hexText]
          have htrim : trimSpace (hexText b) = hexText b :=
            trimSpace_eq_self (fun x hx => solid_of_mem_hexText hb (List.mem_of_mem_head? hx))
              fun x hx => solid_of_mem_hexText hb (List.mem_of_mem_getLast? hx)
          rw [hshow, htrim]
          constructor
          · rintro ⟨hne, h⟩
            refine .inr ?_
            show 2 ≤ b.length
            match b with
            | [] => exact absurd rfl hne
            | c :: d :: rest => simp
            | [c] =>
                have hone : hexText [c] = hexOctet c := by simp [hexText, List.intercalate]
                rw [hone] at h
                rcases h with hhex | ⟨_, heq⟩
                · rw [parseHexOctets_hexOctet (hb c (by simp))] at hhex
                  cases hhex
                · exact absurd (congrArg List.length heq) (by simp [hexOctet])
          · rintro (h | h)
            · cases h
            · have hhex := parseHexOctets_hexText hb h
              refine ⟨?_, .inl hhex⟩
              intro hnil
              rw [hnil] at hhex
              exact absurd hhex (by simp [parseHexOctets])

theorem encodeOne_eq_wire_octets {value : Octets} (hl : node.layout = some (.octets fixed))
    (hf : Fits (.octets fixed) (.octets b)) (hread : Readable implied (.octets fixed) (.octets b)) :
    encodeOne node value implied = .ok (counted implied fixed b) ↔
      value ≠ [] ∧ ∃ t, node.type = some t ∧ octetsOf t value = .ok b := by
  have hmax : maxInt32 < 2 ^ 32 := by decide
  constructor
  · intro h
    have hv : value ≠ [] := by
      rintro rfl
      exact absurd h (by simp [encodeOne])
    obtain ⟨t, hnode, hfixed, heq⟩ := @encodeOne_octets _ implied _ _ hl hv
    refine ⟨hv, t, hnode, ?_⟩
    rw [heq] at h
    cases hp : octetsOf t value with
    | error err => exact absurd (hp ▸ h) (by simp [Except.bind])
    | ok b' =>
        rw [hp] at h
        obtain ⟨hcounted, hlen⟩ := withLength_eq_ok (show withLength b' implied fixed = _ from h)
        have hsame : counted implied fixed b ++ [] = counted implied fixed b' ++ [] := by
          rw [hcounted]
        rw [(counted_append_inj hf.2 hlen (fun _ => ⟨rfl, rfl⟩) hsame).1]
  · rintro ⟨hv, t, hnode, hp⟩
    obtain ⟨t', hnode', hfixed, heq⟩ := @encodeOne_octets _ implied _ _ hl hv
    obtain rfl := Option.some.inj (hnode.symm.trans hnode')
    rw [heq, hp]
    exact withLength_eq_counted hf.2 fun hnone himp => by
      have := hread b.length (by simp [writtenLength, hnone, himp])
      omega

theorem encodeOne_label {v : Nat} {e : Enum} (hl : node.layout = some .number)
    (he : node.labels = some e) (hplain : e.Plain) {enc : List Nat} :
    encodeOne node (trimSpace (valueOf node (.number v)).display) implied ≠ .ok enc := by
  have hparen : 40 ∈ trimSpace (valueOf node (.number v)).display := by
    refine mem_trimSpace (by decide) ?_
    unfold valueOf
    rw [he]
    simp
  have hv : trimSpace (valueOf node (.number v)).display ≠ [] := List.ne_nil_of_mem hparen
  have hvalue : e.value (trimSpace (valueOf node (.number v)).display) = none := by
    rw [Option.eq_none_iff_forall_ne_some]
    exact fun w hw => hplain _ w hw hparen
  have hnumber : encodeNumber (trimSpace (valueOf node (.number v)).display)
      = .error (.notANumber (trimSpace (valueOf node (.number v)).display)) := by
    -- a parenthesis is no digit either
    have hdigits : (trimSpace (valueOf node (.number v)).display).all isDigit = false := by
      rw [List.all_eq_false]
      exact ⟨40, hparen, by decide⟩
    unfold encodeNumber parseUint
    rw [hdigits]
    simp
  rw [encodeOne_number hl hv, he, Option.bind_some, hvalue, hnumber]
  simp

/-- **What an object is shown as encodes to the object** exactly when it is faithful. -/
theorem encodeOne_shown (hplain : ∀ e, node.labels = some e → e.Plain)
    (hl : node.layout = some l) (hf : Fits l c) (hread : Readable implied l c) :
    encodeOne node (trimSpace (valueOf node c).display) implied = .ok (wire implied l c) ↔
      Faithful node c := by
  cases l with
  | number =>
      cases c with
      | arcs ns => exact hf.elim
      | octets b => exact hf.elim
      | number v =>
          show _ ↔ node.labels = none
          cases he : node.labels with
          | some e => exact iff_of_false (encodeOne_label hl he (hplain e he)) (by simp)
          | none =>
              have hshow : (valueOf node (.number v)).display = dotted [v] := by
                unfold valueOf
                rw [he, dotted_singleton]
                rfl
              have hnumber : encodeNumber (dotted [v]) = .ok [v] := by
                unfold encodeNumber
                rw [dotted_singleton, parseUint_formatUint hf]
              refine iff_of_true ?_ rfl
              rw [hshow, trimSpace_dotted, encodeOne_number hl (dotted_ne_nil (by simp)), he]
              exact hnumber
  | arcs =>
      cases c with
      | number v => exact hf.elim
      | octets b => exact hf.elim
      | arcs ns =>
          show encodeOne node (trimSpace (dotted ns)) implied = _ ↔ ns ≠ []
          rw [trimSpace_dotted]
          by_cases hns : ns = []
          · refine iff_of_false ?_ (not_not.mpr hns)
            rw [hns]
            simp [encodeOne]
          · refine iff_of_true ?_ hns
            rw [encodeOne_arcs hl (dotted_ne_nil hns), parseSubIDs_dotted hns hf]
            have hmax : maxInt32 < 2 ^ 32 := by decide
            have hshort : implied = false → ns.length < 2 ^ 32 := by
              intro himp
              have := hread ns.length (by simp [writtenLength, himp])
              omega
            show withLength ns implied none = .ok (counted implied none ns)
            exact withLength_eq_counted (by simp) fun _ => hshort
  | octets fixed =>
      cases c with
      | number v => exact hf.elim
      | arcs ns => exact hf.elim
      | octets b =>
          obtain ⟨t, hnode, hfixed⟩ := type_of_layout hl
          have hshow : (valueOf node (.octets b)).display = renderOctets t b := by
            unfold valueOf
            rw [hnode]
          show encodeOne node _ implied = .ok (counted implied fixed b) ↔ _
          rw [encodeOne_eq_wire_octets hl hf hread, hshow,
            ← octetsOf_shown hnode hf.1 (by rw [hfixed]; exact hf.2)]
          simp [hnode]

end One

/-! ## A row -/

variable {implied : Bool}

/-- Every object of a row is faithful. -/
def AllFaithful : List SmiNode → List Content → Prop
  | node :: rest, c :: cs => Faithful node c ∧ AllFaithful rest cs
  | _, _ => True

theorem encodeParts_shown {nodes : List SmiNode} {cs : List Content} {subs : List Nat}
    (hplain : ∀ node ∈ nodes, ∀ e, node.labels = some e → e.Plain)
    (h : Spells implied nodes cs subs) :
    encodeParts implied nodes ((shown nodes cs).map IndexValue.display) = .ok subs ↔
      AllFaithful nodes cs := by
  induction h with
  | nil => exact iff_of_true rfl trivial
  | @cons node rest l c cs more hl hf hread hspells ih =>
      have hone := encodeOne_shown (hplain node List.mem_cons_self) hl hf hread
      have hrest := ih fun n hn => hplain n (List.mem_cons_of_mem _ hn)
      show (((encodeOne node (trimSpace (valueOf node c).display) (implied && rest.isEmpty)).mapError
        (.inPart node.name)).bind fun enc =>
          (encodeParts implied rest ((shown rest cs).map IndexValue.display)).bind fun subs =>
            .ok (enc ++ subs)) = _ ↔ _
      constructor
      · intro heq
        cases henc : encodeOne node (trimSpace (valueOf node c).display)
            (implied && rest.isEmpty) with
        | error err => exact absurd (henc ▸ heq) (by simp [Except.mapError, Except.bind])
        | ok enc =>
            rw [henc] at heq
            cases hmore : encodeParts implied rest ((shown rest cs).map IndexValue.display) with
            | error err =>
                rw [hmore] at heq
                exact absurd heq (by simp [Except.mapError, Except.bind])
            | ok more' =>
                rw [hmore] at heq
                have hsame : enc ++ more' = wire (implied && rest.isEmpty) l c ++ more :=
                  Except.ok.inj heq
                obtain ⟨l', c', hw⟩ := of_encodeOne henc
                obtain rfl : l = l' := Option.some.inj (hl.symm.trans hw.layout)
                rw [hw.wire] at hsame
                obtain ⟨rfl, rfl⟩ := wire_append_inj hw.fits hf (fun himp => by
                  refine ⟨?_, hspells.eq_nil himp⟩
                  rw [Bool.and_eq_true] at himp
                  rw [List.isEmpty_iff.mp himp.2] at hmore
                  exact (Except.ok.inj hmore).symm) hsame
                rw [hw.wire] at henc
                exact ⟨hone.mp henc, hrest.mp hmore⟩
      · rintro ⟨hc, hcs⟩
        rw [hone.mpr hc, hrest.mpr hcs]
        rfl

theorem length_shown {nodes : List SmiNode} {cs : List Content} {subs : List Nat}
    (h : Spells implied nodes cs subs) : (shown nodes cs).length = nodes.length := by
  induction h with
  | nil => rfl
  | cons _ _ _ _ ih => simpa [shown] using ih

/--
**What is shown addresses the same row, if every object of it is faithful.**

An instance that decodes without an error spells one content for each index object,
and the texts it is shown as encode to its sub-identifiers exactly when the contents
are all faithful; to the instance itself, when it is also written as they are joined.
-/
theorem shown_encodes {table : Table} {raw : Octets}
    (hplain : ∀ node ∈ table.index, ∀ e, node.labels = some e → e.Plain)
    (h : (decodeInstance table raw).error = none) :
    ∃ subs cs, parseSubIDs raw = .ok subs ∧ Spells table.implied table.index cs subs ∧
      (encodeIndex table ((decodeInstance table raw).parts.map IndexValue.display)
          = .ok (dotted subs) ↔ AllFaithful table.index cs) ∧
      (encodeIndex table ((decodeInstance table raw).parts.map IndexValue.display) = .ok raw ↔
        raw = dotted subs ∧ AllFaithful table.index cs) := by
  unfold decodeInstance at h ⊢
  cases hparse : parseSubIDs raw with
  | error err => exact absurd (hparse ▸ h) (by simp)
  | ok subs =>
      rw [hparse] at h
      dsimp only at h ⊢
      obtain ⟨hne, hlt⟩ := parseSubIDs_eq_ok hparse
      split at h
      · cases h
      · rename_i hindex
        rw [if_neg hindex]
        cases hparts : decodeParts table.implied table.index subs with
        | mk parts left =>
            rw [hparts] at h
            cases left with
            | error err => cases h
            | ok left =>
                dsimp only at h ⊢
                obtain rfl : left = [] := by
                  cases left with
                  | nil => rfl
                  | cons n left => cases h
                obtain ⟨cs, hspells, rfl⟩ := spells_of_decodeParts hlt hparts
                have hlen := length_shown hspells
                have hrow := encodeParts_shown hplain hspells
                refine ⟨subs, cs, rfl, hspells, ?_, ?_⟩
                · rw [encodeIndex_eq_ok_iff, ← hrow]
                  constructor
                  · rintro ⟨hindex, hlen, subs', hsubs, hdotted⟩
                    obtain ⟨_, rfl, hne', _⟩ := cut_of_encodeParts hlen hsubs
                    rw [hsubs, dotted_inj (hne' hindex) hne hdotted]
                  · intro heq
                    exact ⟨by simpa using hindex, by simp [hlen], subs, heq, rfl⟩
                · rw [encodeIndex_eq_ok_iff, ← hrow]
                  constructor
                  · rintro ⟨hindex, hlen, subs', hsubs, rfl⟩
                    obtain ⟨_, rfl, hne', hlt', _⟩ := cut_of_encodeParts hlen hsubs
                    have hread := parseSubIDs_dotted (hne' hindex) hlt'
                    obtain rfl := Except.ok.inj (hread.symm.trans hparse)
                    exact ⟨rfl, hsubs⟩
                  · rintro ⟨rfl, heq⟩
                    exact ⟨by simpa using hindex, by simp [hlen], subs, heq, rfl⟩

/-- A row of `nameTable` whose name is `up`. -/
theorem shown_encodes_up :
    ∃ subs cs, parseSubIDs (dotted [2, 117, 112]) = .ok subs ∧
      Spells nameTable.implied nameTable.index cs subs ∧
      (encodeIndex nameTable
          ((decodeInstance nameTable (dotted [2, 117, 112])).parts.map IndexValue.display)
            = .ok (dotted subs) ↔ AllFaithful nameTable.index cs) ∧
      (encodeIndex nameTable
          ((decodeInstance nameTable (dotted [2, 117, 112])).parts.map IndexValue.display)
            = .ok (dotted [2, 117, 112]) ↔
        dotted [2, 117, 112] = dotted subs ∧ AllFaithful nameTable.index cs) :=
  shown_encodes (by
    intro node hnode e he
    rw [List.mem_singleton.mp hnode] at he
    exact absurd he (by simp [SmiNode.labels])) (by decide)

/-- **A row named `ab:cd`** is shown as it is named, and addresses another row. -/
theorem shown_elsewhere :
    (decodeInstance nameTable (dotted [5, 97, 98, 58, 99, 100])).error = none ∧
      (decodeInstance nameTable (dotted [5, 97, 98, 58, 99, 100])).parts.map IndexValue.display
        = [[97, 98, 58, 99, 100]] ∧
      encodeIndex nameTable [[97, 98, 58, 99, 100]] = .ok (dotted [2, 171, 205]) ∧
      dotted [2, 171, 205] ≠ dotted [5, 97, 98, 58, 99, 100] := by
  decide

end SnmpLens.Mib
