import Mathlib.Algebra.Group.Nat.Defs
import Mathlib.Data.List.Infix

/-!
# Delivery errors and what they are worth

`pkg/notify/backoff.go`: an error a sink returns is classified by its type where
it has one the program trusts — a network error, an SMTP reply, an HTTP status —
and by the words in its text where it has none. An error value here is the chain
`errors.As` walks: typed causes at the bottom, `fmt.Errorf("…%w")` and the
scrubbing wrapper above them.
-/

namespace SnmpLens.Notify

/-- Attempts before a delivery becomes a dead letter. -/
def maxAttempts : Nat := 6

/-- How long to wait before attempt `n`, in seconds. -/
def backoff (attempt : Nat) : Nat :=
  let attempt := if attempt < 1 then 1 else attempt
  let d := 2 ^ (attempt - 1) * 15
  if 15 * 60 < d then 15 * 60 else d

/-- An error value, with everything `errors.As` and `Error()` can see of it. -/
inductive GoErr where
  /-- Satisfies `net.Error`: a dial, a deadline, a `*url.Error`. -/
  | net (text : String)
  /-- `*textproto.Error`. -/
  | smtp (code : Nat) (msg : String)
  /-- `*HTTPStatusError`. -/
  | http (code : Nat) (msg : String)
  /-- `errors.New`, `fmt.Errorf` without `%w`, and every type not told apart. -/
  | plain (text : String)
  /-- `fmt.Errorf("front%w", err)`. -/
  | wrap (front : String) (err : GoErr)
  /-- `*scrubbedError`. -/
  | scrubbed (msg : String) (err : GoErr)
deriving DecidableEq, Repr

/-- The three digits of a reply code, as `%03d` prints them. -/
def digits3 (code : Nat) : String :=
  if code < 10 then "00" ++ toString code
  else if code < 100 then "0" ++ toString code
  else toString code

/-- `Error()`. -/
def GoErr.text : GoErr → String
  | .net text => text
  | .smtp code msg => digits3 code ++ " " ++ msg
  | .http _ msg => msg
  | .plain text => text
  | .wrap front err => front ++ err.text
  | .scrubbed msg _ => msg

/-- `errors.As` for `net.Error`. -/
def GoErr.isNet : GoErr → Bool
  | .net _ => true
  | .wrap _ err => err.isNet
  | .scrubbed _ err => err.isNet
  | _ => false

/-- `errors.As` for `*textproto.Error`: the code it carries. -/
def GoErr.smtpCode : GoErr → Option Nat
  | .smtp code _ => some code
  | .wrap _ err => err.smtpCode
  | .scrubbed _ err => err.smtpCode
  | _ => none

/-- `errors.As` for `*HTTPStatusError`: the code it carries. -/
def GoErr.httpCode : GoErr → Option Nat
  | .http code _ => some code
  | .wrap _ err => err.httpCode
  | .scrubbed _ err => err.httpCode
  | _ => none

/--
`unicode.ToLower`, as far as it can produce an ASCII letter: the capitals, and the
two characters outside ASCII whose lower case is in it.
-/
def toLower (c : Char) : Char :=
  if 'A' ≤ c ∧ c ≤ 'Z' then Char.ofNat (c.toNat + 32)
  else if c = '\u0130' then 'i'
  else if c = '\u212a' then 'k'
  else c

/-- `strings.Contains`. -/
def contains (p : List Char) : List Char → Bool
  | [] => p.isEmpty
  | c :: t => p.isPrefixOf (c :: t) || contains p t

theorem contains_iff {p t : List Char} : contains p t = true ↔ p <:+: t := by
  induction t with
  | nil => simp [contains]
  | cons c t ih => simp [contains, ih, List.infix_cons_iff]

/-- The words that make an untyped error permanent. -/
def permanentWords : List String :=
  ["is empty", "incomplete", "unknown smtp auth", "not a valid", "redirects are not followed"]

/-- The text has one of those words, in any case. -/
def wordy (text : String) : Bool :=
  permanentWords.any fun p => contains p.toList (text.toList.map toLower)

/-- `Permanent`: whether an error is worth giving up on at once. -/
def permanent (err : GoErr) : Bool :=
  if err.isNet then false else
  match err.smtpCode with
  | some code => 500 ≤ code
  | none =>
      match err.httpCode with
      | some code =>
          if code == 408 || code == 425 || code == 429 then false
          else 400 ≤ code && code < 500
      | none => wordy err.text

end SnmpLens.Notify
