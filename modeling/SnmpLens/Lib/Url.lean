import SnmpLens.Lib.Utf8

/-!
# URL escaping, as Go's `net/url` does it

The unreserved characters stand for themselves, and every other octet is a percent sign
and two hexadecimal digits. A path segment leaves a few more alone than the component of
a query, and in a query a blank is a plus sign.
-/

namespace Url

open Utf8

/-- `url.encoding`, the two that escape a value. -/
inductive Encoding where
  | pathSegment
  | queryComponent
deriving DecidableEq, Repr

def alphanumeric (c : UInt8) : Bool :=
  (chr 'a' ≤ c && c ≤ chr 'z') || (chr 'A' ≤ c && c ≤ chr 'Z') || (chr '0' ≤ c && c ≤ chr '9')

def shouldEscape (mode : Encoding) (c : UInt8) : Bool :=
  if alphanumeric c then false
  else if c ∈ "-_.~".toList.map chr then false
  else if c ∈ "$&+,/:;=?@".toList.map chr then
    match mode with
    | .pathSegment => c ∈ "/;,?".toList.map chr
    | .queryComponent => true
  else true

/-- A digit of `upperhex`. -/
def hexDigit (n : Nat) : Char := "0123456789ABCDEF".toList.getD n '0'

/-- What is written for one octet. -/
def escapeOctet (mode : Encoding) (c : UInt8) : List Char :=
  if shouldEscape mode c then
    if c = chr ' ' ∧ mode = .queryComponent then ['+']
    else ['%', hexDigit (c.toNat / 16), hexDigit (c.toNat % 16)]
  else [Char.ofNat c.toNat]

/-- `url.PathEscape` and `url.QueryEscape`. -/
def escape (mode : Encoding) (s : Octets) : List Char := s.flatMap (escapeOctet mode)

variable {mode : Encoding}

theorem lt_of_not_shouldEscape {c : UInt8} (h : shouldEscape mode c = false) :
    c.toNat < 128 := by
  by_contra hge
  have hall : ∀ n : Fin 128, shouldEscape mode (UInt8.ofNat (n.val + 128)) = true := by
    cases mode <;> decide +kernel
  have hc : c = UInt8.ofNat (c.toNat - 128 + 128) := by
    rw [Nat.sub_add_cancel (by omega)]
    exact (UInt8.ofNat_toNat).symm
  have hlt := c.toNat_lt
  rw [hc, hall ⟨c.toNat - 128, by omega⟩] at h
  exact Bool.noConfusion h

/-- The characters of an escaped value: the signs of an escape, and what stands for itself. -/
theorem mem_escape {s : Octets} {c : Char} (h : c ∈ escape mode s) :
    c ∈ "+%0123456789ABCDEF".toList ∨ ∃ b, shouldEscape mode b = false ∧ c = Char.ofNat b.toNat := by
  obtain ⟨b, _, hc⟩ := List.mem_flatMap.mp h
  have hdigit : ∀ n : Fin 16, hexDigit n ∈ "+%0123456789ABCDEF".toList := by decide
  have hb := b.toNat_lt
  unfold escapeOctet at hc
  split at hc
  · refine .inl ?_
    split at hc
    · rw [List.mem_singleton.mp hc]
      decide
    · simp only [List.mem_cons, List.not_mem_nil, or_false] at hc
      rcases hc with rfl | rfl | rfl
      · decide
      · exact hdigit ⟨b.toNat / 16, by omega⟩
      · exact hdigit ⟨b.toNat % 16, by omega⟩
  · rename_i hb
    exact .inr ⟨b, by simpa using hb, List.mem_singleton.mp hc⟩

theorem not_mem_escape {s : Octets} {c : Char} (hc : c = '[' ∨ c = ']') :
    c ∉ escape mode s := by
  intro h
  rcases mem_escape h with h | ⟨b, hb, rfl⟩
  · rcases hc with rfl | rfl <;> exact absurd h (by decide)
  · have hlt := lt_of_not_shouldEscape hb
    have hall : ∀ n : Fin 128, shouldEscape mode (UInt8.ofNat n.val) = false →
        Char.ofNat n.val ≠ '[' ∧ Char.ofNat n.val ≠ ']' := by
      cases mode <;> decide +kernel
    obtain ⟨h1, h2⟩ := hall ⟨b.toNat, hlt⟩ (by simpa using hb)
    exact hc.elim h1 h2

/-- Where no sign of an escape is written, every octet stands for itself. -/
theorem plain_of_not_mem {s : Octets} (hplus : '+' ∉ escape mode s) (hper : '%' ∉ escape mode s) :
    ∀ b ∈ s, shouldEscape mode b = false := by
  intro b hb
  cases h : shouldEscape mode b with
  | false => rfl
  | true =>
      have hsub : ∀ c ∈ escapeOctet mode b, c ∈ escape mode s := fun c hc =>
        List.mem_flatMap.mpr ⟨b, hb, hc⟩
      unfold escapeOctet at hsub
      rw [if_pos h] at hsub
      split at hsub
      · exact absurd (hsub '+' (by simp)) hplus
      · exact absurd (hsub '%' (by simp)) hper

theorem escape_octets {s : String} (h : ∀ b ∈ octets s, shouldEscape mode b = false) :
    escape mode (octets s) = s.toList := by
  have hlist : ∀ l : List Char, (∀ b ∈ l.flatMap String.utf8EncodeChar, shouldEscape mode b = false) →
      escape mode (l.flatMap String.utf8EncodeChar) = l := by
    intro l
    induction l with
    | nil => exact fun _ => rfl
    | cons c l ih =>
        intro h
        rw [List.flatMap_cons] at h ⊢
        have hc : ∀ b ∈ String.utf8EncodeChar c, shouldEscape mode b = false := fun b hb =>
          h b (List.mem_append_left _ hb)
        have htail := ih fun b hb => h b (List.mem_append_right _ hb)
        have hsplit : escape mode (String.utf8EncodeChar c ++ l.flatMap String.utf8EncodeChar)
            = escape mode (String.utf8EncodeChar c)
              ++ escape mode (l.flatMap String.utf8EncodeChar) := List.flatMap_append
        rw [hsplit, htail]
        rcases utf8EncodeChar_cases c with ⟨hlt, hone⟩ | ⟨a, rest, hone, hge⟩
        · rw [hone] at hc ⊢
          have hself : escape mode [chr c] = [Char.ofNat (chr c).toNat] := by
            show escapeOctet mode (chr c) ++ [] = _
            rw [escapeOctet, if_neg (by simp [hc (chr c) List.mem_cons_self]), List.append_nil]
          rw [hself, toNat_chr hlt, Char.ofNat_toNat]
          rfl
        · rw [hone] at hc
          have := lt_of_not_shouldEscape (hc a List.mem_cons_self)
          omega
  exact hlist s.toList h

end Url
