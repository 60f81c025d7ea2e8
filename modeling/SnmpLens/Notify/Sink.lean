import Mathlib.Data.List.DropRight
import SnmpLens.Events.Event
import SnmpLens.Lib.Base64
import SnmpLens.Lib.Netip
import SnmpLens.Lib.Substring
import SnmpLens.Notify.Errors

/-!
# Destinations

`pkg/notify/sink.go`: what is stored about a destination, how a stored description
and a credential become a sink, and how the credential is taken out of an error
before the error leaves. Timeouts, and what only shapes the bytes of a message, are
not here: no verdict looks at them.

`Stdlib` is the part of Go's library that nothing below looks into.
-/

namespace SnmpLens.Notify

open Events Utf8

/-! ## Strings -/

/-- `unicode.IsSpace`. -/
def isSpace (c : Char) : Bool :=
  c.toNat ∈ [0x09, 0x0a, 0x0b, 0x0c, 0x0d, 0x20, 0x85, 0xa0, 0x1680, 0x2028, 0x2029, 0x202f,
    0x205f, 0x3000] || (0x2000 ≤ c.toNat && c.toNat ≤ 0x200a)

/-- `strings.TrimSpace`. -/
def trimSpace (s : List Char) : List Char := (s.dropWhile isSpace).rdropWhile isSpace

def trim (s : String) : String := String.ofList (trimSpace s.toList)

/-- `strings.ToLower(strings.TrimSpace(s))`, to be compared with ASCII words. -/
def norm (s : String) : String := String.ofList ((trimSpace s.toList).map toLower)

/-- Case folding, as far as it can produce an ASCII letter. -/
def fold (c : Char) : Char :=
  if 'A' ≤ c ∧ c ≤ 'Z' then Char.ofNat (c.toNat + 32)
  else if c = '\u017f' then 's'
  else if c = '\u212a' then 'k'
  else c

/-- `strings.EqualFold` with an ASCII word. -/
def equalFold (s word : String) : Bool := s.toList.map fold == word.toList.map fold

/-- `n` in hexadecimal, in so many digits. -/
def hex (digits n : Nat) : String :=
  String.ofList ((List.range digits).reverse.map fun i => Nat.digitChar (n / 16 ^ i % 16))

/-- One rune inside `%q`. -/
def quoteRune (isPrint : Char → Bool) (c : Char) : String :=
  if c = '"' ∨ c = '\\' then String.ofList ['\\', c]
  else if isPrint c then String.singleton c
  else
    match c.toNat with
    | 7 => "\\a"
    | 8 => "\\b"
    | 9 => "\\t"
    | 10 => "\\n"
    | 11 => "\\v"
    | 12 => "\\f"
    | 13 => "\\r"
    | n =>
        if n < 0x20 ∨ n = 0x7f then "\\x" ++ hex 2 n
        else if n < 0x10000 then "\\u" ++ hex 4 n
        else "\\U" ++ hex 8 n

/-- The runes of `%q`, at most `fuel` of them. -/
def quoteRunes (isPrint : Char → Bool) : Nat → Octets → String
  | 0, _ => ""
  | _ + 1, [] => ""
  | fuel + 1, a :: rest =>
      let (r, n) := decodeRune (a :: rest)
      (if r = runeError ∧ n = 1 then "\\x" ++ hex 2 a.toNat else quoteRune isPrint (Char.ofNat r))
        ++ quoteRunes isPrint fuel ((a :: rest).drop n)

/-- `%q`. -/
def quote (isPrint : Char → Bool) (s : Octets) : String :=
  "\"" ++ quoteRunes isPrint s.length s ++ "\""

/-- `net.JoinHostPort`. -/
def joinHostPort (host port : String) : String :=
  if host.toList.contains ':' then "[" ++ host ++ "]:" ++ port else host ++ ":" ++ port

/-! ## The library -/

/-- `url.URL`, as far as `validate` looks at it. -/
structure URL where
  scheme : String
  host : String

/-- `xml.Token`. -/
inductive XMLToken where
  | startElement
  | endElement
  | charData (text : String)
  | other

/-- What Go's library decides. -/
structure Stdlib where
  isPrint : Char → Bool
  toUpper : String → String
  /-- `AppendCertsFromPEM` found a certificate. -/
  appendCertsFromPEM : String → Bool
  /-- `tls.X509KeyPair`: the text of its error. -/
  x509KeyPair : String → String → Option String
  /-- `url.Parse`: a `*url.Error` is a `net.Error`. -/
  parseURL : String → Except String URL
  newRequest : String → String → Option GoErr
  jsonValid : String → Bool
  /-- The tokens of a document, and the error behind them where it is not EOF. -/
  xmlTokens : String → List XMLToken × Option String
  /-- `json.Marshal` of the envelope. -/
  marshal : Event → String → String → Except String String

/-- What ends a connection, or the wait for one: a `net.Error`, or anything else. -/
inductive Fault where
  | net (text : String)
  | other (text : String)
deriving DecidableEq, Repr

def Fault.err : Fault → GoErr
  | .net text => .net text
  | .other text => .plain text

/-! ## Configuration -/

structure SyslogConfig where
  address : String := ""
  protocol : String := ""
  caCert : String := ""
  serverName : String := ""
  insecureSkipVerify : Bool := false
  clientCert : String := ""
  /-- The credential. -/
  clientKey : String := ""
deriving DecidableEq, Repr

structure WebhookConfig where
  url : String := ""
  method : String := ""
  headers : List (String × String) := []
  /-- The credential. -/
  token : String := ""
  payloadMode : String := ""
  bodyFormat : String := ""
  allowPlaintextHTTP : Bool := false
  caCert : String := ""
  serverName : String := ""
  insecureSkipVerify : Bool := false
deriving DecidableEq, Repr

structure EmailConfig where
  host : String := ""
  port : Int := 0
  username : String := ""
  /-- The credential. -/
  password : String := ""
  sender : String := ""
  recipients : List String := []
  encryption : String := ""
  authMethod : String := ""
  caCert : String := ""
  serverName : String := ""
  insecureSkipVerify : Bool := false
deriving DecidableEq, Repr

/-- `notify.SinkConfig`. -/
structure SinkConfig where
  id : String
  name : String
  kind : String := ""
  enabled : Bool
  syslog : SyslogConfig := {}
  webhook : WebhookConfig := {}
  email : EmailConfig := {}
  redact : Bool
  secret : String := ""
deriving DecidableEq, Repr

/-- `notify.Sink`. -/
inductive Sink where
  | syslog (config : SyslogConfig)
  | webhook (config : WebhookConfig)
  | email (config : EmailConfig)
deriving DecidableEq, Repr

/-- `Build`: the stored credential wins over what is left on the configuration. -/
def build (cfg : SinkConfig) (secret : String) : Option Sink :=
  let secret := if secret = "" then cfg.secret else secret
  if cfg.kind = "syslog" then some (.syslog { cfg.syslog with clientKey := secret })
  else if cfg.kind = "webhook" then some (.webhook { cfg.webhook with token := secret })
  else if cfg.kind = "email" then some (.email { cfg.email with password := secret })
  else none

/-- What the sinks hand to `crypto/tls`. -/
structure TLSConfig where
  serverName : String
  insecureSkipVerify : Bool
  rootCAs : Option String := none
  certificate : Option (String × String) := none

/-- The private CA of a sink, which has to be PEM where there is one. -/
def rootCAs (std : Stdlib) (caCert : String) : Except GoErr (Option String) :=
  let ca := trim caCert
  if ca = "" then .ok none
  else if std.appendCertsFromPEM ca then .ok (some ca)
  else .error (.plain "the CA certificate is not valid PEM")

/-! ## The credential in an error -/

/-- `secretForms`: every spelling of a credential that an error can have. -/
def secretForms (secret : String) : List (List Char) :=
  let encoded := Base64.encode (octets secret)
  let padded (pad : Nat) : List (List Char) :=
    let encoded := Base64.encode (List.replicate pad 0 ++ octets secret)
    if 4 < encoded.length then [(encoded.take (encoded.length - 4)).drop 4] else []
  let forms := secret.toList :: encoded :: (padded 1 ++ padded 2)
  -- a very short form would match ordinary text
  forms.filter fun f => 6 ≤ (octets (String.ofList f)).length

def redacted : List Char := "[redacted]".toList

def scrubSecret (secret : String) (err : GoErr) : GoErr :=
  if secret = "" then err
  else
    let msg := err.text
    let cleaned := (secretForms secret).foldl
      (fun s form => Substring.replaceAll form redacted s) msg.toList
    if cleaned = msg.toList then err else .scrubbed (String.ofList cleaned) err

end SnmpLens.Notify
