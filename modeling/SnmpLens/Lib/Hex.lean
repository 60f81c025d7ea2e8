import Mathlib.Data.List.Basic
import SnmpLens.Lib.Utf8

/-!
# Octets in hexadecimal

Two digits an octet: what is encoded decodes to what it was.
-/

namespace Hex

open Utf8

/-- A digit's number, in either case. -/
def value (b : UInt8) : Option Nat :=
  if 48 ≤ b ∧ b ≤ 57 then some (b.toNat - 48)
  else if 97 ≤ b ∧ b ≤ 102 then some (b.toNat - 87)
  else if 65 ≤ b ∧ b ≤ 70 then some (b.toNat - 55)
  else none

/-- `hex.DecodeString`. -/
def decode : Octets → Option Octets
  | [] => some []
  | [_] => none
  | a :: b :: rest => do
      let high ← value a
      let low ← value b
      let more ← decode rest
      return UInt8.ofNat (high * 16 + low) :: more

/-- The digit of a number below sixteen. -/
def digit (n : Nat) : UInt8 := UInt8.ofNat (if n < 10 then 48 + n else 87 + n)

/-- `hex.EncodeToString`. -/
def encode (s : Octets) : Octets :=
  s.flatMap fun b => [digit (b.toNat / 16), digit (b.toNat % 16)]

theorem value_digit : ∀ n < 16, value (digit n) = some n := by decide

/-- **What is encoded decodes to what it was.** -/
theorem decode_encode (s : Octets) : decode (encode s) = some s := by
  induction s with
  | nil => rfl
  | cons b s ih =>
      have hb := b.toNat_lt
      have hencode : encode (b :: s) = digit (b.toNat / 16) :: digit (b.toNat % 16) :: encode s := rfl
      have hwhole : b.toNat / 16 * 16 + b.toNat % 16 = b.toNat := Nat.div_add_mod' _ _
      rw [hencode, decode, value_digit _ (by omega), value_digit _ (by omega), ih]
      simp only [Option.bind_eq_bind, Option.bind_some, hwhole, UInt8.ofNat_toNat]
      rfl

theorem toNat_digit : ∀ n < 16, 48 ≤ (digit n).toNat ∧ (digit n).toNat ≤ 102 := by decide

theorem mem_encode {s : Octets} {b : UInt8} (h : b ∈ encode s) : 48 ≤ b.toNat ∧ b.toNat ≤ 102 := by
  obtain ⟨a, _, hb⟩ := List.mem_flatMap.mp h
  have ha := a.toNat_lt
  rcases List.mem_cons.mp hb with rfl | hb
  · exact toNat_digit _ (by omega)
  · obtain rfl := List.mem_singleton.mp hb
    exact toNat_digit _ (by omega)

theorem lower_of_mem_encode {s : Octets} {b : UInt8} (h : b ∈ encode s) : ¬ (65 ≤ b ∧ b ≤ 90) := by
  have hdigit : ∀ n < 16, ¬ (65 ≤ digit n ∧ digit n ≤ 90) := by decide
  obtain ⟨a, _, hb⟩ := List.mem_flatMap.mp h
  have ha := a.toNat_lt
  rcases List.mem_cons.mp hb with rfl | hb
  · exact hdigit _ (by omega)
  · obtain rfl := List.mem_singleton.mp hb
    exact hdigit _ (by omega)

end Hex
