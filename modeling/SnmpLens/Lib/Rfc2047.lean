import SnmpLens.Lib.Fold
import SnmpLens.Lib.Url

/-!
# Encoded words

`mime.QEncoding.Encode("utf-8", s)`: a header value with anything but printable ASCII and tabs in
it is written as encoded words of at most 75 octets with a blank between two of them. The words
are filled as the characters come, so how long the value gets is a matter of the widths of its
characters (`widths`), and one character more before the last makes it no shorter
(`length_encode_insert`).
-/

namespace Rfc2047

open Utf8

def maxContentLen : Nat := 75 - (octets "=?UTF-8?q?").length - (octets "?=").length

def openWord : Octets := octets "=?utf-8?q?"

def closeWord : Octets := octets "?="

def splitWord : Octets := closeWord ++ octets " " ++ openWord

def needsEncoding (s : Octets) : Bool :=
  (Fold.scalars s.length s).any fun r => (r < 32 || 126 < r) && r != 9

/-- What is written as one octet. -/
def short (b : UInt8) : Bool :=
  32 ≤ b && b ≤ 126 && b != chr '=' && b != chr '?' && b != chr '_'

def writeQString (s : Octets) : Octets :=
  s.flatMap fun b =>
    if b = 32 then [chr '_']
    else if short b then [b]
    else [chr '=', chr (Url.hexDigit (b.toNat / 16)), chr (Url.hexDigit (b.toNat % 16))]

/-- The loop of `qEncode`, at most `fuel` runes of it, with `currentLen` octets in the word. -/
def qEncode : Nat → Nat → Octets → Octets
  | 0, _, _ => []
  | _ + 1, _, [] => []
  | fuel + 1, currentLen, b :: rest =>
      let runeLen := if short b then 1 else (decodeRune (b :: rest)).2
      let encLen := if short b then 1 else 3 * runeLen
      let written := writeQString ((b :: rest).take runeLen)
      if maxContentLen < currentLen + encLen then
        splitWord ++ written ++ qEncode fuel encLen ((b :: rest).drop runeLen)
      else written ++ qEncode fuel (currentLen + encLen) ((b :: rest).drop runeLen)

def encode (s : Octets) : Octets :=
  if needsEncoding s then openWord ++ qEncode s.length 0 s ++ closeWord else s

/-! ## How long it gets -/

/-- What a character takes in a word. -/
def width (c : Char) : Nat :=
  if short (chr c) && c.toNat < 128 then 1 else 3 * (String.utf8EncodeChar c).length

/-- What characters take, where the word they go on with has so much in it. -/
def widths : Nat → List Char → Nat
  | _, [] => 0
  | currentLen, c :: cs =>
      if maxContentLen < currentLen + width c then
        splitWord.length + width c + widths (width c) cs
      else width c + widths (currentLen + width c) cs

theorem short_high {b : UInt8} (h : 128 ≤ b.toNat) : short b = false := by
  have hgt : ¬ b ≤ 126 := by
    simp only [UInt8.le_iff_toNat_le, UInt8.reduceToNat]
    omega
  unfold short
  rw [decide_eq_false hgt, Bool.and_false]
  rfl

theorem length_writeQString_long {s : Octets} (h : ∀ b ∈ s, short b = false) :
    (writeQString s).length = 3 * s.length := by
  induction s with
  | nil => rfl
  | cons b s ih =>
      have hb := h b List.mem_cons_self
      have hne : b ≠ 32 := by
        intro hb32
        rw [hb32] at hb
        cases hb
      have hs := ih fun x hx => h x (List.mem_cons_of_mem b hx)
      unfold writeQString at hs ⊢
      rw [List.flatMap_cons, List.length_append, hs, if_neg hne, if_neg (by simp [hb]),
        List.length_cons]
      simp only [List.length_cons, List.length_nil]
      omega

/-- The first octet of a character is written short where the character is. -/
theorem short_head (c : Char) :
    ∃ b rest, String.utf8EncodeChar c = b :: rest ∧
      (short b = true → rest = []) ∧ width c = (if short b then 1 else 3 * (rest.length + 1)) ∧
        (short b = false → ∀ x ∈ b :: rest, short x = false) := by
  rcases utf8EncodeChar_cases c with ⟨hlt, hone⟩ | ⟨a, rest, hmore, hhigh⟩
  · refine ⟨chr c, [], hone, fun _ => rfl, ?_, ?_⟩
    · unfold width
      rw [hone, decide_eq_true hlt, Bool.and_true]
      rfl
    · intro hshort x hx
      rw [List.mem_singleton.mp hx]
      exact hshort
  · have hge : ¬ c.toNat < 128 := by
      -- else its only octet would be itself
      intro hlt
      have hsame : [chr c] = a :: rest := by
        rw [← hmore, String.utf8EncodeChar, if_pos (by show c.toNat ≤ 127; omega)]
        rfl
      rw [← (List.cons.inj hsame).1, toNat_chr hlt] at hhigh
      omega
    have hall : ∀ x ∈ a :: rest, 128 ≤ x.toNat := by
      intro x hx
      rw [← hmore] at hx
      rcases mem_utf8EncodeChar hx with ⟨hlt, _⟩ | hxhigh
      · exact absurd hlt hge
      · exact hxhigh
    have hlong := short_high (hall a List.mem_cons_self)
    refine ⟨a, rest, hmore, ?_, ?_, fun _ x hx => short_high (hall x hx)⟩
    · intro hshort
      rw [hlong] at hshort
      cases hshort
    · unfold width
      rw [hmore, hlong, decide_eq_false hge, Bool.and_false]
      rfl

/-- **The words hold what the widths say**, and nothing but the split between two. -/
theorem length_qEncode {l : List Char} {fuel currentLen : Nat}
    (hfuel : (l.flatMap String.utf8EncodeChar).length ≤ fuel) :
    (qEncode fuel currentLen (l.flatMap String.utf8EncodeChar)).length = widths currentLen l := by
  induction l generalizing fuel currentLen with
  | nil => cases fuel <;> rfl
  | cons c l ih =>
      obtain ⟨b, rest, hc, hsingle, hwidth, hlong⟩ := short_head c
      have hrune := decodeRune_encode c (l.flatMap String.utf8EncodeChar)
      rw [List.flatMap_cons, List.length_append] at hfuel
      rw [hc] at hfuel hrune
      rw [List.flatMap_cons, hc]
      cases fuel with
      | zero => exact absurd hfuel (by simp)
      | succ fuel =>
          have hrest : (l.flatMap String.utf8EncodeChar).length ≤ fuel := by
            rw [List.length_cons] at hfuel
            omega
          -- the piece that is taken is the character
          have hlen : (if short b then 1 else
              (decodeRune (b :: rest ++ l.flatMap String.utf8EncodeChar)).2)
                = (b :: rest).length := by
            by_cases hb : short b = true
            · rw [if_pos hb, hsingle hb]
              rfl
            · rw [if_neg hb, hrune]
          have henc : (if short b then 1 else 3 * (b :: rest).length) = width c := hwidth.symm
          have hwritten : (writeQString (b :: rest)).length = width c := by
            by_cases hb : short b = true
            · rw [hwidth, if_pos hb, hsingle hb]
              unfold writeQString
              rw [List.flatMap_singleton, if_pos hb]
              split <;> rfl
            · have hb := Bool.not_eq_true _ |>.mp hb
              rw [length_writeQString_long (hlong hb), hwidth, hb]
              rfl
          rw [List.cons_append] at hlen ⊢
          unfold qEncode widths
          dsimp only
          rw [hlen, henc, ← List.cons_append, List.take_left, List.drop_left]
          split
          · rw [List.length_append, List.length_append, hwritten, ih hrest]
          · rw [List.length_append, hwritten, ih hrest]

theorem widths_insert (currentLen : Nat) (l : List Char) (c e : Char) :
    widths currentLen (l ++ [e]) ≤ widths currentLen (l ++ [c, e]) := by
  induction l generalizing currentLen with
  | nil =>
      simp only [List.nil_append, widths]
      -- where the last starts a word it does so after more, or the one before it did
      split <;> split <;> split <;> omega
  | cons d l ih =>
      have hsplit := ih (width d)
      have hon := ih (currentLen + width d)
      rw [List.cons_append, List.cons_append]
      unfold widths
      split <;> omega

theorem needsEncoding_of_mem {l : List Char} {c : Char} (hc : c ∈ l) (hhigh : 126 < c.toNat) :
    needsEncoding (l.flatMap String.utf8EncodeChar) = true := by
  unfold needsEncoding
  rw [Fold.scalars_text (Nat.le_refl _), List.any_map, List.any_eq_true]
  refine ⟨c, hc, ?_⟩
  have hne : (c.toNat != 9) = true := by
    rw [bne_iff_ne]
    omega
  simp [Function.comp, hhigh, hne]

theorem encode_printable {s : Octets} (h : ∀ b ∈ s, 32 ≤ b.toNat ∧ b.toNat ≤ 126) :
    encode s = s := by
  have hascii : ∀ b ∈ s, b.toNat < 128 := fun b hb => by have := h b hb; omega
  have hplain : needsEncoding s = false := by
    unfold needsEncoding
    rw [Fold.scalars_ascii hascii (Nat.le_refl _), List.any_map, List.any_eq_false]
    intro b hb
    have hlow : ¬ b.toNat < 32 := by have := h b hb; omega
    have hhigh : ¬ 126 < b.toNat := by have := h b hb; omega
    simp [Function.comp, hlow, hhigh]
  unfold encode
  rw [hplain]
  rfl

theorem length_encode {l : List Char} (h : needsEncoding (l.flatMap String.utf8EncodeChar) = true) :
    (encode (l.flatMap String.utf8EncodeChar)).length
      = openWord.length + widths 0 l + closeWord.length := by
  unfold encode
  rw [if_pos h, List.length_append, List.length_append, length_qEncode (Nat.le_refl _)]

/-- **A value gets no shorter by one character more** before the last. -/
theorem length_encode_insert (l : List Char) (c : Char) {e : Char} (he : 126 < e.toNat) :
    (encode ((l ++ [e]).flatMap String.utf8EncodeChar)).length
      ≤ (encode ((l ++ [c, e]).flatMap String.utf8EncodeChar)).length := by
  have hwidths := widths_insert 0 l c e
  rw [length_encode (needsEncoding_of_mem (by simp) he),
    length_encode (needsEncoding_of_mem (by simp) he)]
  omega

end Rfc2047
