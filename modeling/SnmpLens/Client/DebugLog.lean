import SnmpLens.Lib.Scan
import SnmpLens.Lib.Strings

/-!
# What the debug log keeps of a line

`ringLogWriter.Write` of `pkg/snmp/client.go`: a line of gosnmp is trimmed, rewritten by four regular
expressions and then by one replacement for each secret of the request, and buffered.

A line is written from a form, in which a secret is one letter, whatever it is, and so is a packet
that is dumped. The patterns are defined for both alphabets: on octets they are the source's, and on
the letters of a form they show what they are meant to take away. Where they find in the line what
they find in its form, what the log keeps says nothing about the secrets.
-/

namespace SnmpLens.DebugLog

open Utf8 Strings Scan

/-! ## The patterns -/

section patterns

variable {α : Type} [DecidableEq α] (oct : UInt8 → α)

/-- A string in an alphabet that has the octets. -/
def lit (s : String) : List α := (octets s).map oct

def redacted : String := "[redacted]"

/-- Where a word first stands. -/
def index (word : List α) : List α → Option Nat
  | [] => if word = [] then some 0 else none
  | c :: t => if word.isPrefixOf (c :: t) then some 0 else (index word t).map (· + 1)

/-- `.*` -/
def line (s : List α) : List α := s.takeWhile (· ≠ oct 10)

/-- ``Community:.*?, PDUType:`` -/
def communityInPacket : Finder α := fun s =>
  if (lit oct "Community:").isPrefixOf s then
    (index (lit oct ", PDUType:") (line oct (s.drop (lit oct "Community:").length))).map fun i =>
      (lit oct ("Community:" ++ redacted ++ ", PDUType:"),
        (lit oct "Community:").length + i + (lit oct ", PDUType:").length)
  else none

/-- `Community:`, and what is up to a comma or the end of the line. -/
def communityField : Finder α := fun s =>
  if (lit oct "Community:").isPrefixOf s then
    some (lit oct ("Community:" ++ redacted), (lit oct "Community:").length +
      ((s.drop (lit oct "Community:").length).takeWhile fun c => c ≠ oct 44 ∧ c ≠ oct 10).length)
  else none

/-- ``Parsed community .*`` -/
def parsedCommunity : Finder α := fun s =>
  if (lit oct "Parsed community ").isPrefixOf s then
    some (lit oct ("Parsed community " ++ redacted), (lit oct "Parsed community ").length +
      (line oct (s.drop (lit oct "Parsed community ").length)).length)
  else none

/-- What a dump of so many octets is replaced with. -/
def redactBytes (n : Nat) : List α :=
  lit oct "[" ++ (formatUint n).map oct ++ lit oct (" bytes " ++ redacted ++ "]")

/-- Four numbers or more, of one to three digits each, in brackets. -/
def byteDump : Finder α := fun s =>
  if (lit oct "[").isPrefixOf s then
    let body := (s.drop 1).takeWhile fun c => c = oct 32 ∨ c ∈ lit oct "0123456789"
    let numbers := body.splitOn (oct 32)
    if (lit oct "]").isPrefixOf (s.drop (body.length + 1)) ∧ 4 ≤ numbers.length ∧
        ∀ n ∈ numbers, 1 ≤ n.length ∧ n.length ≤ 3 then
      some (redactBytes oct (body.count (oct 32) + 1), body.length + 2)
    else none
  else none

end patterns

def scrubSecrets (msg : Octets) (secrets : List Octets) : Octets :=
  let msg := scan (communityInPacket id) msg
  let msg := scan (communityField id) msg
  let msg := scan (parsedCommunity id) msg
  let msg := scan (byteDump id) msg
  secrets.foldl (fun msg secret =>
    if secret.length < 3 then msg else Substring.replaceAll secret (octets redacted) msg) msg

structure DebugEntry where
  timestamp : String
  message : Octets
deriving DecidableEq

/-- `ringLogWriter.Write`. -/
def write (secrets : List Octets) (now : String) (p : Octets) (debugLog : List DebugEntry) :
    List DebugEntry :=
  let msg := scrubSecrets (trimSpace p) secrets
  if msg = [] then debugLog
  else
    let debugLog := debugLog ++ [{ timestamp := now, message := msg }]
    if 500 < debugLog.length then debugLog.drop (debugLog.length - 500) else debugLog

/-! ## Lines and their forms -/

inductive Which where
  | community
  | authPass
  | privPass
deriving DecidableEq

/-- A letter of a form. -/
inductive Letter where
  | oct (b : UInt8)
  | secret (w : Which)
  /-- A packet of so many octets, dumped. -/
  | packet (i : Nat) (size : Nat)
deriving DecidableEq

/-- The secrets of a request, and the packets that are dumped. -/
structure Values where
  secret : Which → Octets
  packet : Nat → Octets
  long : ∀ w, 3 ≤ (secret w).length

/-- What `fmt` makes of octets. -/
def dump (packet : Octets) : Octets :=
  octets "[" ++ [32].intercalate (packet.map fun b => formatUint b.toNat) ++ octets "]"

namespace Values

def secrets (v : Values) : List Octets := [v.secret .community, v.secret .authPass, v.secret .privPass]

/-- A letter as it is written. -/
def spell (v : Values) : Letter → Octets
  | .oct b => [b]
  | .secret w => v.secret w
  | .packet i _ => dump (v.packet i)

/-- A line as it is written. -/
def write (v : Values) (form : List Letter) : Octets := form.flatMap v.spell

end Values

/-! ## What is left of a form -/

/-- A dump that the pattern is for. -/
def packetDump : Finder Letter := fun s =>
  match s with
  | .packet _ size :: _ => some (redactBytes .oct size, 1)
  | _ => byteDump .oct s

/-- The form, once the patterns are through with it. -/
def scrubbed (form : List Letter) : List Letter :=
  scan packetDump (scan (parsedCommunity .oct) (scan (communityField .oct)
    (scan (communityInPacket .oct) form)))

/-- A secret is marked, and nothing else. -/
def marked : Letter → Octets
  | .oct b => [b]
  | .secret _ => octets redacted
  | .packet _ _ => []

/-- **What the log is to keep of a form.** -/
def kept (form : List Letter) : Octets := (scrubbed form).flatMap marked

/-- The letter of a secret is found, or of another one that is the same. -/
def hides (v : Values) (w : Which) : Finder Letter := fun s =>
  match s with
  | .secret w' :: _ => if v.secret w' = v.secret w then some (lit .oct redacted, 1) else none
  | _ => none

end SnmpLens.DebugLog
