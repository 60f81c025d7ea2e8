import SnmpLens.Lib.Utf8

/-!
# Replies, as Go's `net/textproto` reads them

A reply is a line that begins with three digits, or several lines of one code that
a hyphen continues. A first line that is neither is an error which quotes it. A
continuation line that is neither is taken into the message, and the reading goes
on until a line ends the reply or none comes.

What a client finds at a read is the lines the peer wrote, and behind them what
ended the connection or the wait.
-/

namespace Textproto

open Utf8

variable {φ : Type*}

/-- What there is to read: lines without their ends, and then a fault. -/
structure Answer (φ : Type*) where
  lines : List Octets
  fault : φ

/-- What one `ReadResponse` comes to, whatever code was expected. -/
inductive Reply (φ : Type*) where
  | fault (fault : φ)
  /-- A `ProtocolError`. -/
  | malformed (text : String)
  | reply (code : Nat) (message : Octets)

/-- What `parseCodeLine` makes of a line. -/
inductive CodeLine where
  | short
  | invalid (continued : Bool)
  | code (code : Nat) (continued : Bool) (message : Octets)

/-- `Atoi` of three octets, as long as it is a code: a sign leaves too few digits for one. -/
def codeOf (a b c : UInt8) : Option Nat :=
  let digit (d : UInt8) : Bool := chr '0' ≤ d && d ≤ chr '9'
  let value (d : UInt8) : Nat := d.toNat - 48
  let code := value a * 100 + value b * 10 + value c
  if digit a && digit b && digit c && 100 ≤ code then some code else none

def parseCodeLine : Octets → CodeLine
  | a :: b :: c :: sep :: message =>
      if sep != chr ' ' && sep != chr '-' then .short
      else
        match codeOf a b c with
        | none => .invalid (sep == chr '-')
        | some code => .code code (sep == chr '-') message
  | _ => .short

/-- The lines behind a first one that is continued; `none` where they run out. -/
def continuation (code : Nat) : Octets → List Octets → Option Octets
  | _, [] => none
  | message, line :: rest =>
      let raw := message ++ chr '\n' :: (line.reverse.dropWhile (· == chr '\r')).reverse
      match parseCodeLine line with
      | .code code' continued more =>
          if code' ≠ code then continuation code raw rest
          else if continued then continuation code (message ++ chr '\n' :: more) rest
          else some (message ++ chr '\n' :: more)
      | _ => continuation code raw rest

/-- `ReadResponse`, before it looks at the code it expected. -/
def Answer.read (a : Answer φ) : Reply φ :=
  match a.lines with
  | [] => .fault a.fault
  | line :: rest =>
      match parseCodeLine line with
      | .short => .malformed ("short response: " ++ text line)
      | .invalid false => .malformed ("invalid response code: " ++ text line)
      -- continued, and no line has the code that would end it
      | .invalid true => .fault a.fault
      | .code code false message => .reply code message
      | .code code true message =>
          match continuation code message rest with
          | none => .fault a.fault
          | some message => .reply code message

/-- The code of the reply, if it has one. -/
def Answer.code (a : Answer φ) : Option Nat :=
  match a.read with
  | .reply code _ => some code
  | _ => none

/-- Whether `expect`, one to three digits, stands for this code; zero stands for every code. -/
def expected (expect code : Nat) : Bool :=
  if 1 ≤ expect && expect < 10 then code / 100 == expect
  else if 10 ≤ expect && expect < 100 then code / 10 == expect
  else if 100 ≤ expect && expect < 1000 then code == expect
  else true

end Textproto
