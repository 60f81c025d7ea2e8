import Mathlib.Data.List.Basic
import SnmpLens.Lib.Utf8

/-!
# Text in either case

`strings.EqualFold` goes through two strings rune by rune and takes two runes for the same when
one folds to the other. Two runes that are no ASCII fold to an ASCII letter; neither is a digit
in hexadecimal, so what is the same as some octets in hexadecimal is those octets, with letters
of either case.
-/

namespace Fold

open Utf8

/-- The code points of some octets, at most `fuel` of them. -/
def scalars : Nat → Octets → List Nat
  | 0, _ => []
  | _ + 1, [] => []
  | fuel + 1, a :: rest =>
      let (r, n) := decodeRune (a :: rest)
      r :: scalars fuel ((a :: rest).drop n)

/-- Case folding, as far as it can produce an ASCII letter. -/
def fold (r : Nat) : Nat :=
  if 65 ≤ r ∧ r ≤ 90 then r + 32
  else if r = 0x17f then 115
  else if r = 0x212a then 107
  else r

/-- `strings.EqualFold` with an ASCII word. -/
def equalFold (s word : Octets) : Bool :=
  (scalars s.length s).map fold == (scalars word.length word).map fold

/-- A letter in lower case. -/
def lower (b : UInt8) : UInt8 := if 65 ≤ b ∧ b ≤ 90 then b + 32 else b

theorem high_decodeRune {b : UInt8} (hb : ¬ b < 0x80) (rest : Octets) :
    128 ≤ (decodeRune (b :: rest)).1 := by
  have herr : 128 ≤ runeError := by decide
  have hle : ∀ {x y : UInt8}, x ≤ y → x.toNat ≤ y.toNat := UInt8.le_iff_toNat_le.mp
  unfold decodeRune
  dsimp only
  rw [if_neg hb]
  split
  · rename_i h2
    rw [Bool.and_eq_true, decide_eq_true_eq, decide_eq_true_eq] at h2
    have hlow := hle h2.1
    have hhigh := hle h2.2
    change 194 ≤ b.toNat at hlow
    change b.toNat ≤ 223 at hhigh
    split
    · split
      · dsimp only
        omega
      · exact herr
    · exact herr
  · split
    · rename_i h3
      rw [Bool.and_eq_true, decide_eq_true_eq, decide_eq_true_eq] at h3
      have hlow := hle h3.1
      have hhigh := hle h3.2
      change 224 ≤ b.toNat at hlow
      change b.toNat ≤ 239 at hhigh
      split
      · split
        · rename_i c d _ hcd
          simp only [Bool.and_eq_true, Bool.or_eq_true, decide_eq_true_eq, bne_iff_ne] at hcd
          have hc := hle hcd.1.1.1.2
          change c.toNat ≤ 191 at hc
          dsimp only
          by_cases h224 : b.toNat = 224
          · -- the shortest form is refused
            have hb' : b = 0xe0 := UInt8.toNat_inj.mp h224
            have hc' := hle (hcd.1.2.resolve_left fun hne => hne hb')
            change 160 ≤ c.toNat at hc'
            omega
          · omega
        · exact herr
      · exact herr
    · split
      · rename_i h4
        rw [Bool.and_eq_true, decide_eq_true_eq, decide_eq_true_eq] at h4
        have hlow := hle h4.1
        have hhigh := hle h4.2
        change 240 ≤ b.toNat at hlow
        change b.toNat ≤ 244 at hhigh
        split
        · split
          · rename_i c d e _ hcde
            simp only [Bool.and_eq_true, Bool.or_eq_true, decide_eq_true_eq, bne_iff_ne] at hcde
            have hc := hle hcde.1.1.1.1.2
            change c.toNat ≤ 191 at hc
            dsimp only
            by_cases h240 : b.toNat = 240
            · have hb' : b = 0xf0 := UInt8.toNat_inj.mp h240
              have hc' := hle (hcde.1.2.resolve_left fun hne => hne hb')
              change 144 ≤ c.toNat at hc'
              omega
            · omega
          · exact herr
        · exact herr
      · exact herr

theorem scalars_ascii {s : Octets} (h : ∀ b ∈ s, b.toNat < 128) {fuel : Nat}
    (hfuel : s.length ≤ fuel) : scalars fuel s = s.map UInt8.toNat := by
  induction s generalizing fuel with
  | nil => cases fuel <;> rfl
  | cons a s ih =>
      cases fuel with
      | zero => cases hfuel
      | succ fuel =>
          have ha : a < 0x80 := UInt8.lt_iff_toNat_lt.mpr (h a List.mem_cons_self)
          have hrune : decodeRune (a :: s) = (a.toNat, 1) := by
            unfold decodeRune
            dsimp only
            rw [if_pos ha]
          unfold scalars
          rw [hrune]
          dsimp only
          rw [List.drop_one, List.tail_cons, ih (fun b hb => h b (List.mem_cons_of_mem a hb))
            (by simpa using hfuel), List.map_cons]

theorem ascii_of_scalars {s : Octets} {fuel : Nat} (hfuel : s.length ≤ fuel)
    (h : ∀ r ∈ scalars fuel s, r < 128) : ∀ b ∈ s, b.toNat < 128 := by
  induction s generalizing fuel with
  | nil => exact fun b hb => absurd hb List.not_mem_nil
  | cons a s ih =>
      cases fuel with
      | zero => cases hfuel
      | succ fuel =>
          by_cases ha : a < 0x80
          · have hrune : decodeRune (a :: s) = (a.toNat, 1) := by
              unfold decodeRune
              dsimp only
              rw [if_pos ha]
            unfold scalars at h
            rw [hrune] at h
            dsimp only at h
            rw [List.drop_one, List.tail_cons] at h
            intro b hb
            rcases List.mem_cons.mp hb with rfl | hb
            · exact UInt8.lt_iff_toNat_lt.mp ha
            · exact ih (by simpa using hfuel) (fun r hr => h r (List.mem_cons_of_mem _ hr)) b hb
          · have hhigh := high_decodeRune ha s
            have hlow : (decodeRune (a :: s)).1 < 128 := h _ List.mem_cons_self
            omega

theorem decodeRune_pos (a : UInt8) (rest : Octets) : 0 < (decodeRune (a :: rest)).2 := by
  unfold decodeRune
  dsimp only
  repeat' split
  all_goals exact Nat.succ_pos _

theorem mem_scalars {s : Octets} {fuel : Nat} (hfuel : s.length ≤ fuel) {b : UInt8} (hb : b ∈ s)
    (hlt : b.toNat < 128) : b.toNat ∈ scalars fuel s := by
  induction fuel generalizing s with
  | zero =>
      rw [List.length_eq_zero_iff.mp (Nat.le_zero.mp hfuel)] at hb
      cases hb
  | succ fuel ih =>
      cases s with
      | nil => cases hb
      | cons a rest =>
          unfold scalars
          dsimp only
          rw [← List.take_append_drop (decodeRune (a :: rest)).2 (a :: rest)] at hb
          rcases List.mem_append.mp hb with hb | hb
          · by_cases ha : a.toNat < 128
            · -- the rune is the octet itself
              rw [decodeRune_one ha] at hb ⊢
              rw [List.mem_singleton.mp hb]
              exact List.mem_cons_self
            · have hhigh := high_of_decodeRune (fun h => ha (UInt8.lt_iff_toNat_lt.mp h)) rest b hb
              omega
          · refine List.mem_cons_of_mem _ (ih ?_ hb)
            have hpos := decodeRune_pos a rest
            rw [List.length_drop]
            rw [List.length_cons] at hfuel ⊢
            omega

theorem scalars_text {l : List Char} {fuel : Nat}
    (hfuel : (l.flatMap String.utf8EncodeChar).length ≤ fuel) :
    scalars fuel (l.flatMap String.utf8EncodeChar) = l.map Char.toNat := by
  induction l generalizing fuel with
  | nil => cases fuel <;> rfl
  | cons c l ih =>
      have hrune := decodeRune_encode c (l.flatMap String.utf8EncodeChar)
      rw [List.flatMap_cons] at hfuel ⊢
      obtain ⟨a, rest, ha⟩ : ∃ a rest, String.utf8EncodeChar c = a :: rest := by
        rcases utf8EncodeChar_cases c with ⟨_, hone⟩ | ⟨a, rest, hmore, _⟩
        · exact ⟨_, _, hone⟩
        · exact ⟨_, _, hmore⟩
      cases fuel with
      | zero =>
          rw [ha] at hfuel
          cases hfuel
      | succ fuel =>
          have hdrop : (String.utf8EncodeChar c ++ l.flatMap String.utf8EncodeChar).drop
              (String.utf8EncodeChar c).length = l.flatMap String.utf8EncodeChar := List.drop_left
          have hrest : (l.flatMap String.utf8EncodeChar).length ≤ fuel := by
            rw [List.length_append, ha, List.length_cons] at hfuel
            omega
          rw [ha, List.cons_append] at hrune hdrop ⊢
          unfold scalars
          rw [hrune]
          dsimp only
          rw [hdrop, ih hrest, List.map_cons]

/-- **What is the same as a word in lower case is that word, in letters of either case**, where
the word has neither of the letters something else folds to. -/
theorem lower_of_equalFold {s word : Octets} (hword : ∀ b ∈ word, b.toNat < 128)
    (hlower : ∀ b ∈ word, ¬ (65 ≤ b ∧ b ≤ 90)) (hk : 107 ∉ word) (hs : 115 ∉ word)
    (h : equalFold s word = true) : s.map lower = word := by
  have hfold : ∀ b ∈ word, fold b.toNat = b.toNat := by
    intro b hb
    have hcase := hlower b hb
    rw [UInt8.le_iff_toNat_le, UInt8.le_iff_toNat_le] at hcase
    change ¬ (65 ≤ b.toNat ∧ b.toNat ≤ 90) at hcase
    have := hword b hb
    unfold fold
    rw [if_neg hcase, if_neg (by omega), if_neg (by omega)]
  have hmap : (scalars s.length s).map fold = word.map UInt8.toNat := by
    rw [beq_iff_eq.mp h, scalars_ascii hword (Nat.le_refl _), List.map_map]
    exact List.map_congr_left hfold
  -- nothing that is no ASCII folds to a letter of the word
  have hlow : ∀ r ∈ scalars s.length s, r < 128 := by
    intro r hr
    have hin : fold r ∈ word.map UInt8.toNat := hmap ▸ List.mem_map_of_mem hr
    obtain ⟨b, hb, hbr⟩ := List.mem_map.mp hin
    have hb' := hword b hb
    have hbk : b.toNat ≠ 107 := fun heq => hk ((UInt8.toNat_inj (b := 107)).mp heq ▸ hb)
    have hbs : b.toNat ≠ 115 := fun heq => hs ((UInt8.toNat_inj (b := 115)).mp heq ▸ hb)
    unfold fold at hbr
    split at hbr
    · omega
    · split at hbr
      · omega
      · split at hbr
        · omega
        · omega
  have hascii := ascii_of_scalars (Nat.le_refl _) hlow
  rw [scalars_ascii hascii (Nat.le_refl _), List.map_map] at hmap
  have hnat : (s.map lower).map UInt8.toNat = word.map UInt8.toNat := by
    rw [← hmap, List.map_map]
    refine List.map_congr_left fun b hb => ?_
    have hb' := hascii b hb
    simp only [Function.comp_apply, lower, fold]
    by_cases hcase : 65 ≤ b ∧ b ≤ 90
    · have hcase' : 65 ≤ b.toNat ∧ b.toNat ≤ 90 :=
        ⟨UInt8.le_iff_toNat_le.mp hcase.1, UInt8.le_iff_toNat_le.mp hcase.2⟩
      rw [if_pos hcase, if_pos hcase', UInt8.toNat_add]
      change (b.toNat + 32) % 256 = b.toNat + 32
      omega
    · have hcase' : ¬ (65 ≤ b.toNat ∧ b.toNat ≤ 90) := fun h' =>
        hcase ⟨UInt8.le_iff_toNat_le.mpr h'.1, UInt8.le_iff_toNat_le.mpr h'.2⟩
      rw [if_neg hcase, if_neg hcase', if_neg (by omega), if_neg (by omega)]
  exact List.map_injective_iff.mpr (fun _ _ => UInt8.toNat_inj.mp) hnat

end Fold
