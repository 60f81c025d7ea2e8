import Mathlib.Data.List.GetD
import SnmpLens.Lib.Utf8

/-!
# Base64, as Go's `base64.StdEncoding` reads and writes it

Padded, line breaks skipped, and an error names the octet it was found at.
-/

namespace Base64

open Utf8

def alphabet : List Char :=
  "ABCDEFGHIJKLMNOPQRSTUVWXYZabcdefghijklmnopqrstuvwxyz0123456789+/".toList

/-- The character of six bits. -/
def digit (n : Nat) : Char := alphabet.getD (n % 64) '='

/-- `EncodeToString`. -/
def encode : Octets → List Char
  | [] => []
  | [a] =>
      let n := a.toNat * 65536
      [digit (n / 262144), digit (n / 4096), '=', '=']
  | [a, b] =>
      let n := a.toNat * 65536 + b.toNat * 256
      [digit (n / 262144), digit (n / 4096), digit (n / 64), '=']
  | a :: b :: c :: rest =>
      let n := a.toNat * 65536 + b.toNat * 256 + c.toNat
      digit (n / 262144) :: digit (n / 4096) :: digit (n / 64) :: digit n :: encode rest

theorem digit_mem (n : Nat) : digit n ∈ alphabet := by
  have hlen : alphabet.length = 64 := rfl
  unfold digit
  rw [List.getD_eq_getElem _ _ (by omega)]
  exact List.getElem_mem _

theorem mem_encode {s : Octets} {c : Char} (h : c ∈ encode s) : c ∈ alphabet ∨ c = '=' := by
  fun_induction encode s with
  | case1 => exact absurd h List.not_mem_nil
  | case2 a n =>
      simp only [List.mem_cons, List.not_mem_nil, or_false] at h
      rcases h with rfl | rfl | rfl | rfl
      · exact .inl (digit_mem _)
      · exact .inl (digit_mem _)
      · exact .inr rfl
      · exact .inr rfl
  | case3 a b n =>
      simp only [List.mem_cons, List.not_mem_nil, or_false] at h
      rcases h with rfl | rfl | rfl | rfl
      · exact .inl (digit_mem _)
      · exact .inl (digit_mem _)
      · exact .inl (digit_mem _)
      · exact .inr rfl
  | case4 a b c rest n ih =>
      simp only [List.mem_cons] at h
      rcases h with rfl | rfl | rfl | rfl | h
      · exact .inl (digit_mem _)
      · exact .inl (digit_mem _)
      · exact .inl (digit_mem _)
      · exact .inl (digit_mem _)
      · exact ih h

theorem length_encode (s : Octets) : (encode s).length = (s.length + 2) / 3 * 4 := by
  fun_induction encode s with
  | case1 => rfl
  | case2 a n => simp only [List.length_cons, List.length_nil]
  | case3 a b n => simp only [List.length_cons, List.length_nil]
  | case4 a b c rest n ih =>
      simp only [List.length_cons, ih]
      omega

theorem encode_append {s t : Octets} (h : s.length % 3 = 0) :
    encode (s ++ t) = encode s ++ encode t := by
  fun_induction encode s with
  | case1 => rfl
  | case2 a n => cases h
  | case3 a b n => cases h
  | case4 a b c rest n ih =>
      have hrest : rest.length % 3 = 0 := by
        simp only [List.length_cons] at h
        omega
      simp only [List.cons_append, encode]
      rw [ih hrest]

/-- The six bits of a character of the alphabet. -/
def sextet (c : UInt8) : Option Nat := alphabet.findIdx? fun a => chr a == c

/-- The octets of the sextets of one quantum, the bits that are left over dropped. -/
def quantum : List Nat → Octets
  | [a, b] => [UInt8.ofNat (a * 4 + b / 16)]
  | [a, b, c] => [UInt8.ofNat (a * 4 + b / 16), UInt8.ofNat (b % 16 * 16 + c / 4)]
  | [a, b, c, d] =>
      [UInt8.ofNat (a * 4 + b / 16), UInt8.ofNat (b % 16 * 16 + c / 4), UInt8.ofNat (c % 4 * 64 + d)]
  | _ => []

def isBreak (c : UInt8) : Bool := c == chr '\n' || c == chr '\r'

/-- Nothing but line breaks may follow the padding. -/
def finish (pos : Nat) (got : List Nat) (src : Octets) : Except Nat Octets :=
  match src.dropWhile isBreak with
  | [] => .ok (quantum got)
  | _ :: _ => .error (pos + (src.takeWhile isBreak).length)

/-- `decodeQuantum` over the rest of the input: `pos` octets are read, and `got` is what the
quantum has so far. -/
def decodeFrom (pos : Nat) (got : List Nat) : Octets → Except Nat Octets
  | [] => if got.isEmpty then .ok [] else .error (pos - got.length)
  | c :: rest =>
      match sextet c with
      | some v =>
          if got.length = 3 then
            (decodeFrom (pos + 1) [] rest).map fun out => quantum (got ++ [v]) ++ out
          else decodeFrom (pos + 1) (got ++ [v]) rest
      | none =>
          if isBreak c then decodeFrom (pos + 1) got rest
          else if c != chr '=' then .error pos
          else
            match got.length with
            | 3 => finish (pos + 1) got rest
            | 2 =>
                -- a second one is expected, line breaks apart
                let pos := pos + 1 + (rest.takeWhile isBreak).length
                match rest.dropWhile isBreak with
                | [] => .error pos
                | d :: rest => if d != chr '=' then .error (pos - 1) else finish (pos + 1) got rest
            | _ => .error pos

/-- `DecodeString`; the error is a `CorruptInputError`. -/
def decode (s : Octets) : Except Nat Octets := decodeFrom 0 [] s

/-! ## What is written is read back -/

/-- The text `encode` writes, as octets. -/
def text (s : Octets) : Octets := (encode s).map chr

theorem sextet_digit (n : Nat) : sextet (chr (digit n)) = some (n % 64) := by
  have hall : ∀ i : Fin 64, sextet (chr (digit i.val)) = some i.val := by decide +kernel
  have hdigit : digit n = digit (n % 64) := by
    unfold digit
    rw [Nat.mod_mod]
  rw [hdigit]
  exact hall ⟨n % 64, Nat.mod_lt _ (by omega)⟩

theorem decodeFrom_digit {pos n : Nat} {got : List Nat} {rest : Octets} (h : got.length < 3) :
    decodeFrom pos got (chr (digit n) :: rest)
      = decodeFrom (pos + 1) (got ++ [n % 64]) rest := by
  rw [decodeFrom, sextet_digit]
  exact if_neg (by omega)

theorem decodeFrom_quantum {pos a b c n : Nat} {rest : Octets} :
    decodeFrom pos [a, b, c] (chr (digit n) :: rest)
      = (decodeFrom (pos + 1) [] rest).map fun out => quantum [a, b, c, n % 64] ++ out := by
  rw [decodeFrom, sextet_digit]
  exact if_pos rfl

theorem ofNat_eq {n : Nat} {a : UInt8} (h : n = a.toNat) : UInt8.ofNat n = a := by
  rw [h]
  exact UInt8.ofNat_toNat

theorem decodeFrom_text (s : Octets) (pos : Nat) : decodeFrom pos [] (text s) = .ok s := by
  unfold text
  fun_induction encode s generalizing pos with
  | case1 => rfl
  | case2 a n =>
      have ha := a.toNat_lt
      simp only [List.map_cons, List.map_nil]
      rw [decodeFrom_digit (by simp), decodeFrom_digit (by simp)]
      -- the padding is no digit, and nothing follows it
      show Except.ok (quantum _) = _
      refine congrArg Except.ok (congrArg₂ List.cons (ofNat_eq ?_) rfl)
      omega
  | case3 a b n =>
      have ha := a.toNat_lt
      have hb := b.toNat_lt
      simp only [List.map_cons, List.map_nil]
      rw [decodeFrom_digit (by simp), decodeFrom_digit (by simp), decodeFrom_digit (by simp)]
      show Except.ok (quantum _) = _
      refine congrArg Except.ok (congrArg₂ List.cons (ofNat_eq ?_)
        (congrArg₂ List.cons (ofNat_eq ?_) rfl)) <;> omega
  | case4 a b c rest n ih =>
      have ha := a.toNat_lt
      have hb := b.toNat_lt
      have hc := c.toNat_lt
      simp only [List.map_cons]
      rw [decodeFrom_digit (by simp), decodeFrom_digit (by simp), decodeFrom_digit (by simp)]
      simp only [List.nil_append, List.cons_append]
      rw [decodeFrom_quantum, ih]
      refine congrArg Except.ok (congrArg₂ List.cons (ofNat_eq ?_)
        (congrArg₂ List.cons (ofNat_eq ?_) (congrArg₂ List.cons (ofNat_eq ?_) rfl))) <;> omega

/-- **What is written is read back.** -/
theorem decode_text (s : Octets) : decode (text s) = .ok s := decodeFrom_text s 0

end Base64
