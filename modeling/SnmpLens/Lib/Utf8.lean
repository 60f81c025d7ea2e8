import Mathlib.Data.List.Basic

/-!
# Text and its octets

A Go string is octets. Where a program looks at characters it decodes UTF-8 on the
way, and an octet that is no part of a well-formed rune reads as U+FFFD.
-/

namespace Utf8

abbrev Octets := List UInt8

instance lawfulBEq_octets : LawfulBEq Octets := List.instLawfulBEq

/-- A list is gone through, also where all values of the type could be. -/
instance (priority := high) decidableForallMem {α : Type} {p : α → Prop} [DecidablePred p]
    (l : List α) : Decidable (∀ a, a ∈ l → p a) := List.decidableBAll p l

/-- The octets of a string. -/
def octets (s : String) : Octets := s.toList.flatMap String.utf8EncodeChar

/-- They are what the string is stored as, which the kernel reads sooner than its characters. -/
theorem octets_eq_stored (s : String) : octets s = s.toByteArray.data.toList := by
  rw [← String.utf8Encode_toList, List.utf8Encode, List.toList_data_toByteArray]
  rfl

/-- The octet of an ASCII character. -/
def chr (c : Char) : UInt8 := c.toUInt8

theorem toNat_chr {c : Char} (h : c.toNat < 128) : (chr c).toNat = c.toNat := by
  show (UInt32.toUInt8 c.val).toNat = c.toNat
  rw [UInt32.toNat_toUInt8]
  exact Nat.mod_eq_of_lt (Nat.lt_trans h (by omega))

/-- A rune is its own octet, or begins with an octet that is no continuation. -/
theorem utf8EncodeChar_cases (c : Char) :
    (c.toNat < 128 ∧ String.utf8EncodeChar c = [chr c])
      ∨ ∃ a rest, String.utf8EncodeChar c = a :: rest ∧ 0xc0 ≤ a.toNat := by
  have hv : c.val.toNat = c.toNat := rfl
  have hmod : ∀ n m : Nat, n % m + 0xc0 < 256 → 0xc0 ≤ (UInt8.ofNat (n % m + 0xc0)).toNat := by
    intro n m h
    rw [UInt8.toNat_ofNat_of_lt' h]
    omega
  unfold String.utf8EncodeChar
  by_cases h1 : c.val.toNat ≤ 0x7f
  · refine .inl ⟨by omega, ?_⟩
    rw [if_pos h1]
    rfl
  · right
    rw [if_neg h1]
    by_cases h2 : c.val.toNat ≤ 0x7ff
    · rw [if_pos h2]
      exact ⟨_, _, rfl, hmod _ _ (by omega)⟩
    · rw [if_neg h2]
      by_cases h3 : c.val.toNat ≤ 0xffff
      · rw [if_pos h3]
        refine ⟨_, _, rfl, ?_⟩
        rw [UInt8.toNat_ofNat_of_lt' (by omega : _ < 256)]
        omega
      · rw [if_neg h3]
        refine ⟨_, _, rfl, ?_⟩
        rw [UInt8.toNat_ofNat_of_lt' (by omega : _ < 256)]
        omega

theorem head_octets {s : String} {a : UInt8} {rest : Octets} (h : octets s = a :: rest) :
    a.toNat < 128 ∨ 0xc0 ≤ a.toNat := by
  unfold octets at h
  cases hs : s.toList with
  | nil =>
      rw [hs] at h
      cases h
  | cons c l =>
      rw [hs, List.flatMap_cons] at h
      rcases utf8EncodeChar_cases c with ⟨hlt, hc⟩ | ⟨b, rest', hc, hge⟩
      · rw [hc, List.singleton_append] at h
        obtain ⟨rfl, _⟩ := List.cons.inj h
        left
        rw [toNat_chr hlt]
        exact hlt
      · rw [hc, List.cons_append] at h
        obtain ⟨rfl, _⟩ := List.cons.inj h
        exact .inr hge

/-- An octet of a rune is the rune itself where it is ASCII, else no ASCII. -/
theorem mem_utf8EncodeChar {c : Char} {b : UInt8} (h : b ∈ String.utf8EncodeChar c) :
    (c.toNat < 128 ∧ b = chr c) ∨ 128 ≤ b.toNat := by
  have hmod : ∀ n m k : Nat, 128 ≤ k → n % m + k < 256 → 128 ≤ (UInt8.ofNat (n % m + k)).toNat := by
    intro n m k hk hlt
    rw [UInt8.toNat_ofNat_of_lt' hlt]
    omega
  rcases utf8EncodeChar_cases c with ⟨hlt, hone⟩ | _
  · rw [hone] at h
    exact .inl ⟨hlt, List.mem_singleton.mp h⟩
  · have hv : c.val.toNat = c.toNat := rfl
    unfold String.utf8EncodeChar at h
    by_cases h1 : c.val.toNat ≤ 0x7f
    · left
      rw [if_pos h1] at h
      exact ⟨by omega, List.mem_singleton.mp h⟩
    · right
      rw [if_neg h1] at h
      by_cases h2 : c.val.toNat ≤ 0x7ff
      · rw [if_pos h2] at h
        simp only [List.mem_cons, List.not_mem_nil, or_false] at h
        rcases h with rfl | rfl <;> exact hmod _ _ _ (by omega) (by omega)
      · rw [if_neg h2] at h
        by_cases h3 : c.val.toNat ≤ 0xffff
        · rw [if_pos h3] at h
          simp only [List.mem_cons, List.not_mem_nil, or_false] at h
          rcases h with rfl | rfl | rfl
          · rw [UInt8.toNat_ofNat_of_lt' (by omega : _ < 256)]
            omega
          all_goals exact hmod _ _ _ (by omega) (by omega)
        · rw [if_neg h3] at h
          simp only [List.mem_cons, List.not_mem_nil, or_false] at h
          rcases h with rfl | rfl | rfl | rfl
          · rw [UInt8.toNat_ofNat_of_lt' (by omega : _ < 256)]
            omega
          all_goals exact hmod _ _ _ (by omega) (by omega)

theorem chr_inj {c d : Char} (hc : c.toNat < 128) (hd : d.toNat < 128) (h : chr c = chr d) :
    c = d := by
  have hnat := congrArg UInt8.toNat h
  rw [toNat_chr hc, toNat_chr hd] at hnat
  exact Char.toNat_inj.mp hnat

theorem chr_mem_octets {s : String} {c : Char} (hc : c.toNat < 128) :
    chr c ∈ octets s ↔ c ∈ s.toList := by
  constructor
  · intro h
    obtain ⟨d, hd, hmem⟩ := List.mem_flatMap.mp h
    rcases mem_utf8EncodeChar hmem with ⟨hlt, heq⟩ | hhigh
    · rw [chr_inj hc hlt heq]
      exact hd
    · rw [toNat_chr hc] at hhigh
      omega
  · intro h
    refine List.mem_flatMap.mpr ⟨c, h, ?_⟩
    rcases utf8EncodeChar_cases c with ⟨_, hone⟩ | ⟨a, rest, hone, hge⟩
    · rw [hone]
      exact List.mem_singleton_self _
    · rw [String.utf8EncodeChar, if_pos (by show c.toNat ≤ 127; omega)]
      exact List.mem_singleton_self _

/-- The rune an ill-formed octet reads as. -/
def runeError : Nat := 0xfffd

/-- `utf8.DecodeRune`: the rune in front, and how many octets it takes. -/
def decodeRune (s : Octets) : Nat × Nat :=
  let low (b : UInt8) : Nat := b.toNat % 64
  let cont (b : UInt8) : Bool := 0x80 ≤ b && b ≤ 0xbf
  match s with
  | [] => (runeError, 0)
  | a :: rest =>
      if a < 0x80 then (a.toNat, 1)
      else if 0xc2 ≤ a && a ≤ 0xdf then
        match rest with
        | b :: _ => if cont b then (a.toNat % 32 * 64 + low b, 2) else (runeError, 1)
        | _ => (runeError, 1)
      else if 0xe0 ≤ a && a ≤ 0xef then
        match rest with
        | b :: c :: _ =>
            if cont b && cont c && (a != 0xe0 || 0xa0 ≤ b) && (a != 0xed || b ≤ 0x9f) then
              (a.toNat % 16 * 4096 + low b * 64 + low c, 3)
            else (runeError, 1)
        | _ => (runeError, 1)
      else if 0xf0 ≤ a && a ≤ 0xf4 then
        match rest with
        | b :: c :: d :: _ =>
            if cont b && cont c && cont d && (a != 0xf0 || 0x90 ≤ b) && (a != 0xf4 || b ≤ 0x8f) then
              (a.toNat % 8 * 262144 + low b * 4096 + low c * 64 + low d, 4)
            else (runeError, 1)
        | _ => (runeError, 1)
      else (runeError, 1)

theorem high_of_decodeRune {b : UInt8} (hb : ¬ b < 0x80) (rest : Octets) :
    ∀ x ∈ (b :: rest).take (decodeRune (b :: rest)).2, 128 ≤ x.toNat := by
  have hhigh : ∀ x : UInt8, 0x80 ≤ x → 128 ≤ x.toNat := fun x hx => UInt8.le_iff_toNat_le.mp hx
  have hb' : 128 ≤ b.toNat := hhigh b (UInt8.not_lt.mp hb)
  have hone : ∀ x ∈ (b :: rest).take 1, 128 ≤ x.toNat := by
    intro x hx
    rw [List.mem_singleton.mp hx]
    exact hb'
  unfold decodeRune
  dsimp only
  rw [if_neg hb]
  split
  · split
    · split
      · rename_i c _ hc
        simp only [Bool.and_eq_true, decide_eq_true_eq] at hc
        intro x hx
        simp only [List.take_succ_cons, List.take_zero, List.mem_cons, List.not_mem_nil, or_false] at hx
        rcases hx with rfl | rfl
        · exact hb'
        · exact hhigh _ hc.1
      · exact hone
    · exact hone
  · split
    · split
      · split
        · rename_i c d _ hcd
          simp only [Bool.and_eq_true, decide_eq_true_eq] at hcd
          intro x hx
          simp only [List.take_succ_cons, List.take_zero, List.mem_cons, List.not_mem_nil, or_false] at hx
          rcases hx with rfl | rfl | rfl
          · exact hb'
          · exact hhigh _ hcd.1.1.1.1
          · exact hhigh _ hcd.1.1.2.1
        · exact hone
      · exact hone
    · split
      · split
        · split
          · rename_i c d e _ hcde
            simp only [Bool.and_eq_true, decide_eq_true_eq] at hcde
            intro x hx
            simp only [List.take_succ_cons, List.take_zero, List.mem_cons, List.not_mem_nil, or_false] at hx
            rcases hx with rfl | rfl | rfl | rfl
            · exact hb'
            · exact hhigh _ hcde.1.1.1.1.1
            · exact hhigh _ hcde.1.1.1.2.1
            · exact hhigh _ hcde.1.1.2.1
          · exact hone
        · exact hone
      · exact hone

/-! ## Runes that are encoded -/

theorem decodeRune_one {a : UInt8} (ha : a.toNat < 128) (rest : Octets) :
    decodeRune (a :: rest) = (a.toNat, 1) := by
  unfold decodeRune
  dsimp only
  rw [if_pos (UInt8.lt_iff_toNat_lt.mpr ha)]

theorem decodeRune_two {a b : UInt8} (ha : 194 ≤ a.toNat ∧ a.toNat ≤ 223)
    (hb : 128 ≤ b.toNat ∧ b.toNat ≤ 191) (rest : Octets) :
    decodeRune (a :: b :: rest) = (a.toNat % 32 * 64 + b.toNat % 64, 2) := by
  unfold decodeRune
  simp only [UInt8.lt_iff_toNat_lt, UInt8.le_iff_toNat_le, UInt8.reduceToNat]
  rw [if_neg (by omega), if_pos (by simpa using ha), if_pos (by simpa using hb)]

theorem decodeRune_three {a b c : UInt8} (ha : 224 ≤ a.toNat ∧ a.toNat ≤ 239)
    (hb : 128 ≤ b.toNat ∧ b.toNat ≤ 191) (hc : 128 ≤ c.toNat ∧ c.toNat ≤ 191)
    (hlow : a.toNat = 224 → 160 ≤ b.toNat) (hgap : a.toNat = 237 → b.toNat ≤ 159) (rest : Octets) :
    decodeRune (a :: b :: c :: rest) =
      (a.toNat % 16 * 4096 + b.toNat % 64 * 64 + c.toNat % 64, 3) := by
  unfold decodeRune
  simp only [UInt8.lt_iff_toNat_lt, UInt8.le_iff_toNat_le, UInt8.reduceToNat, bne_iff_ne, ne_eq,
    Bool.and_eq_true, Bool.or_eq_true, decide_eq_true_eq, ← UInt8.toNat_inj]
  rw [if_neg (by omega), if_neg (by omega), if_pos (by omega), if_pos (by omega)]

theorem decodeRune_four {a b c d : UInt8} (ha : 240 ≤ a.toNat ∧ a.toNat ≤ 244)
    (hb : 128 ≤ b.toNat ∧ b.toNat ≤ 191) (hc : 128 ≤ c.toNat ∧ c.toNat ≤ 191)
    (hd : 128 ≤ d.toNat ∧ d.toNat ≤ 191)
    (hlow : a.toNat = 240 → 144 ≤ b.toNat) (hend : a.toNat = 244 → b.toNat ≤ 143) (rest : Octets) :
    decodeRune (a :: b :: c :: d :: rest) =
      (a.toNat % 8 * 262144 + b.toNat % 64 * 4096 + c.toNat % 64 * 64 + d.toNat % 64, 4) := by
  unfold decodeRune
  simp only [UInt8.lt_iff_toNat_lt, UInt8.le_iff_toNat_le, UInt8.reduceToNat, bne_iff_ne, ne_eq,
    Bool.and_eq_true, Bool.or_eq_true, decide_eq_true_eq, ← UInt8.toNat_inj]
  rw [if_neg (by omega), if_neg (by omega), if_neg (by omega), if_pos (by omega), if_pos (by omega)]

/-- **What is encoded decodes**, whatever follows. -/
theorem decodeRune_encode (c : Char) (rest : Octets) :
    decodeRune (String.utf8EncodeChar c ++ rest) = (c.toNat, (String.utf8EncodeChar c).length) := by
  have hv : c.val.toNat = c.toNat := rfl
  have hvalid : c.toNat < 0xd800 ∨ 0xdfff < c.toNat ∧ c.toNat < 0x110000 := c.valid
  have hoct : ∀ n m k : Nat, n % m + k < 256 → (UInt8.ofNat (n % m + k)).toNat = n % m + k :=
    fun n m k h => UInt8.toNat_ofNat_of_lt' h
  unfold String.utf8EncodeChar
  rw [hv]
  by_cases h1 : c.toNat ≤ 0x7f
  · have hnat : (UInt8.ofNat c.toNat).toNat = c.toNat := by
      refine UInt8.toNat_ofNat_of_lt' ?_
      show c.toNat < 256
      omega
    rw [if_pos h1, List.singleton_append, decodeRune_one (by omega), hnat]
    rfl
  · rw [if_neg h1]
    by_cases h2 : c.toNat ≤ 0x7ff
    · rw [if_pos h2]
      have ha := hoct (c.toNat / 64) 32 0xc0 (by omega)
      have hb := hoct c.toNat 64 0x80 (by omega)
      rw [List.cons_append, List.singleton_append, decodeRune_two (by omega) (by omega), ha, hb]
      refine Prod.ext ?_ rfl
      dsimp only
      omega
    · rw [if_neg h2]
      by_cases h3 : c.toNat ≤ 0xffff
      · rw [if_pos h3]
        have ha := hoct (c.toNat / 4096) 16 0xe0 (by omega)
        have hb := hoct (c.toNat / 64) 64 0x80 (by omega)
        have hc := hoct c.toNat 64 0x80 (by omega)
        rw [List.cons_append, List.cons_append, List.singleton_append,
          decodeRune_three (by omega) (by omega) (by omega) (by omega) (by omega), ha, hb, hc]
        refine Prod.ext ?_ rfl
        dsimp only
        omega
      · rw [if_neg h3]
        have ha := hoct (c.toNat / 262144) 8 0xf0 (by omega)
        have hb := hoct (c.toNat / 4096) 64 0x80 (by omega)
        have hc := hoct (c.toNat / 64) 64 0x80 (by omega)
        have hd := hoct c.toNat 64 0x80 (by omega)
        rw [List.cons_append, List.cons_append, List.cons_append, List.singleton_append,
          decodeRune_four (by omega) (by omega) (by omega) (by omega) (by omega) (by omega),
          ha, hb, hc, hd]
        refine Prod.ext ?_ rfl
        dsimp only
        omega

theorem toNat_of_isValidChar {n : Nat} (h : n.isValidChar) : (Char.ofNat n).toNat = n := by
  unfold Char.ofNat
  rw [dif_pos h]
  exact UInt32.toNat_ofNatLT ..

/-- `utf8.AppendRune`: what is no code point is written as U+FFFD. -/
def encodeRune (r : Nat) : Octets :=
  String.utf8EncodeChar (if r.isValidChar then Char.ofNat r else Char.ofNat runeError)

theorem encodeRune_toNat (c : Char) : encodeRune c.toNat = String.utf8EncodeChar c := by
  have hvalid : c.toNat.isValidChar := c.valid
  unfold encodeRune
  rw [if_pos hvalid, Char.ofNat_toNat]

/-- Octets that are well-formed UTF-8. -/
def IsText (s : Octets) : Prop := ∃ l : List Char, s = l.flatMap String.utf8EncodeChar

theorem isText_octets (s : String) : IsText (octets s) := ⟨s.toList, rfl⟩

/-- `utf8.Valid`. -/
def valid (s : Octets) : Bool := s.toByteArray.validateUTF8

theorem valid_iff {s : Octets} : valid s = true ↔ IsText s := by
  unfold valid
  rw [ByteArray.validateUTF8_eq_true_iff]
  constructor
  · intro h
    obtain ⟨l, hl⟩ := h
    have hdata := congrArg (fun b : ByteArray => b.data.toList) hl
    exact ⟨l, by simpa [List.utf8Encode] using hdata⟩
  · intro h
    obtain ⟨l, hl⟩ := h
    exact ⟨l, by rw [hl]; rfl⟩

theorem isText_ascii {s : Octets} (h : ∀ b ∈ s, b.toNat < 128) : IsText s := by
  refine ⟨s.map fun b => Char.ofNat b.toNat, ?_⟩
  induction s with
  | nil => rfl
  | cons b s ih =>
      have hb := h b List.mem_cons_self
      have hnat : (Char.ofNat b.toNat).toNat = b.toNat :=
        toNat_of_isValidChar (.inl (by omega))
      have hone : String.utf8EncodeChar (Char.ofNat b.toNat) = [b] := by
        rcases utf8EncodeChar_cases (Char.ofNat b.toNat) with ⟨hlt, hone⟩ | ⟨a, rest, hmore, hge⟩
        · rw [hone]
          refine congrArg (fun x => [x]) (UInt8.toNat_inj.mp ?_)
          rw [toNat_chr hlt, hnat]
        · rw [String.utf8EncodeChar, if_pos (by show (Char.ofNat b.toNat).toNat ≤ 127; omega)] at hmore ⊢
          refine congrArg (fun x => [x]) (UInt8.toNat_inj.mp ?_)
          show (UInt8.ofNat (Char.ofNat b.toNat).toNat).toNat = _
          rw [hnat, UInt8.ofNat_toNat]
      rw [List.map_cons, List.flatMap_cons, hone, List.singleton_append]
      exact congrArg (b :: ·) (ih fun c hc => h c (List.mem_cons_of_mem b hc))

theorem IsText.append {s t : Octets} (hs : IsText s) (ht : IsText t) : IsText (s ++ t) := by
  obtain ⟨l, rfl⟩ := hs
  obtain ⟨m, rfl⟩ := ht
  exact ⟨l ++ m, by rw [List.flatMap_append]⟩

/-- The runes of some octets, at most `fuel` of them. -/
def runes : Nat → Octets → List Char
  | 0, _ => []
  | _ + 1, [] => []
  | fuel + 1, a :: rest =>
      let (r, n) := decodeRune (a :: rest)
      Char.ofNat r :: runes fuel ((a :: rest).drop n)

theorem runes_ascii {s : Octets} (h : ∀ b ∈ s, b.toNat < 128) {fuel : Nat} (hfuel : s.length ≤ fuel) :
    runes fuel s = s.map fun b => Char.ofNat b.toNat := by
  induction s generalizing fuel with
  | nil => cases fuel <;> rfl
  | cons a s ih =>
      cases fuel with
      | zero => cases hfuel
      | succ fuel =>
          have ha : a < 0x80 := UInt8.lt_iff_toNat_lt.mpr (h a List.mem_cons_self)
          have hrune : decodeRune (a :: s) = (a.toNat, 1) := by
            unfold decodeRune
            dsimp only
            rw [if_pos ha]
          unfold runes
          rw [hrune]
          dsimp only
          rw [List.drop_one, List.tail_cons, ih (fun b hb => h b (List.mem_cons_of_mem a hb))
            (by simpa using hfuel), List.map_cons]

/-- Octets as the text they read as. -/
def text (s : Octets) : String := String.ofList (runes s.length s)

end Utf8
