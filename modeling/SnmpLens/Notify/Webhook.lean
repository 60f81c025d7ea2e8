import SnmpLens.Notify.Sink

/-!
# The webhook and the syslog sink

`pkg/notify/webhook.go`, `syslog.go` and `syslog_tls.go`. What the other side does
with a request or a connection is an argument of `send`; what is checked before
anything goes out is a function of the configuration and the event.
-/

namespace SnmpLens.Notify

open Events Utf8

/-! ## Webhook -/

def secretPlaceholder : String := "\x7b\x7bsecret\x7d\x7d"

/-- What `client.Do` and the body it returns come to. -/
inductive Response where
  /-- A `*url.Error`, which is a `net.Error`. -/
  | failed (text : String)
  | answered (code : Nat) (status location : String) (body : Octets)

def isLoopback (host : String) : Bool :=
  let h := (Netip.splitHost host.toList).getD host.toList
  equalFold (String.ofList h) "localhost" ||
    match Netip.parseAddr h with
    | some (.v4 bits) => bits.toNat / 2 ^ 24 == 127
    -- `net.ParseIP` knows no zones
    | some (.v6 bits zone) =>
        zone == "" && (bits.toNat == 1 || bits.toNat / 2 ^ 24 == 0xffff * 2 ^ 8 + 127)
    | none => false

namespace WebhookConfig

/-- `resolvedURL`: the address to request, the placeholder expanded before it is parsed. -/
def resolvedURL (w : WebhookConfig) : String :=
  let raw := trimSpace w.url.toList
  if w.token = "" then String.ofList raw
  else String.ofList (Substring.replaceAll secretPlaceholder.toList w.token.toList raw)

def carriesCredential (w : WebhookConfig) : Bool :=
  w.token != "" || w.headers.any fun h => contains secretPlaceholder.toList h.2.toList

def validate (std : Stdlib) (w : WebhookConfig) : Except GoErr URL :=
  let raw := w.resolvedURL
  if raw = "" then .error (.plain "webhook URL is empty")
  else
    match std.parseURL raw with
    | .error text => .error (.wrap "webhook URL is not valid: " (.net text))
    | .ok u =>
        let scheme := String.ofList (u.scheme.toList.map toLower)
        if scheme ≠ "http" ∧ scheme ≠ "https" then
          .error (.plain ("webhook URL must be http or https, got "
            ++ quote std.isPrint (octets u.scheme)))
        else if u.host = "" then .error (.plain "webhook URL has no host")
        else if equalFold u.scheme "http" && w.carriesCredential && !w.allowPlaintextHTTP
            && !isLoopback u.host then
          .error (.plain ("refusing to send the webhook credential over plaintext http to "
            ++ u.host ++ "; use https, or enable the plaintext option explicitly"))
        else .ok u

def tlsConfig (std : Stdlib) (w : WebhookConfig) : Except GoErr TLSConfig := do
  let rootCAs ← rootCAs std w.caCert
  return { serverName := trim w.serverName
           insecureSkipVerify := w.insecureSkipVerify, rootCAs }

/-- `bodyFormat`. -/
def format (w : WebhookConfig) : String :=
  let f := norm w.bodyFormat
  if f = "text" ∨ f = "xml" ∨ f = "form" then f else "json"

/-- `PayloadMode` is the template mode. -/
def templated (w : WebhookConfig) : Bool :=
  equalFold (trim w.payloadMode) "template"

end WebhookConfig

/-- The loop of `wellFormedXML`, and what is asked behind it. -/
def wellFormedXML (failure : Option String) : Int → Nat → List XMLToken → Except GoErr Unit
  | depth, roots, [] =>
      match failure with
      | some text => .error (.plain text)
      | none =>
          if roots = 0 then .error (.plain "no element found")
          else if 1 < roots then
            .error (.plain (toString roots ++ " root elements; XML allows one"))
          else if depth ≠ 0 then .error (.plain "an element is not closed")
          else .ok ()
  | depth, roots, .startElement :: rest =>
      wellFormedXML failure (depth + 1) (if depth = 0 then roots + 1 else roots) rest
  | depth, roots, .endElement :: rest => wellFormedXML failure (depth - 1) roots rest
  | depth, roots, .charData text :: rest =>
      if depth = 0 ∧ trimSpace text.toList ≠ [] then
        .error (.plain "text outside the root element")
      else wellFormedXML failure depth roots rest
  | depth, roots, .other :: rest => wellFormedXML failure depth roots rest

namespace WebhookConfig

def wellFormed (std : Stdlib) (w : WebhookConfig) (body : String) : Except GoErr Unit :=
  if w.format = "json" then
    if std.jsonValid body then .ok ()
    else
      .error (.plain ("the rendered payload is not valid JSON; "
        ++ "check the quotes and commas in the message template"))
  else if w.format = "xml" then
    let (tokens, failure) := std.xmlTokens body
    (wellFormedXML failure 0 0 tokens).mapError
      (.wrap "the rendered payload is not well-formed XML: ")
  else .ok ()

def payload (std : Stdlib) (w : WebhookConfig) (e : Event) (subject body : String) :
    Except GoErr String :=
  if w.templated then
    let trimmed := trim body
    if trimmed = "" then
      .error (.plain ("this webhook sends its message template as the payload, "
        ++ "but the template rendered nothing"))
    else (w.wellFormed std trimmed).map fun _ => trimmed
  else (std.marshal e subject body).mapError .plain

/-- Everything `Send` does before the request goes out. -/
def request (std : Stdlib) (w : WebhookConfig) (e : Event) (subject body : String) :
    Except GoErr Unit := do
  let _ ← w.validate std
  let _ ← w.payload std e subject body
  let method := std.toUpper (trim w.method)
  match std.newRequest (if method = "" then "POST" else method) w.resolvedURL with
  | some err => .error err
  | none => pure ()
  let _ ← w.tlsConfig std

def scrub (w : WebhookConfig) (err : GoErr) : GoErr := scrubSecret w.token err

/-- What a redirect is reported as. -/
def redirectErr (std : Stdlib) (status location : String) : GoErr :=
  .plain ("webhook returned a redirect (" ++ status ++ ") to "
    ++ quote std.isPrint (octets location) ++ "; redirects are not followed because they would "
    ++ "drop the request body — point the sink at the final URL")

/-- What `Send` makes of the response. -/
def answer (std : Stdlib) (w : WebhookConfig) : Response → Except GoErr Unit
  | .failed text => .error (w.scrub (.net text))
  | .answered code status location body =>
      if 300 ≤ code ∧ code < 400 then .error (w.scrub (redirectErr std status location))
      else if code < 200 ∨ 300 ≤ code then
        let snippet := trim (text (body.take 512))
        .error (w.scrub (.http code ("webhook returned " ++ status ++ ": " ++ snippet)))
      else .ok ()

/-- `WebhookSink.Send`. -/
def send (std : Stdlib) (w : WebhookConfig) (e : Event) (subject body : String)
    (response : Response) : Except GoErr Unit :=
  (do
    w.request std e subject body
    w.answer std response).mapError w.scrub

end WebhookConfig

/-! ## Syslog -/

/-- What becomes of a connection to a collector. -/
structure Collector where
  dial : Option Fault
  write : Option Fault

def normaliseProtocol (p : String) : String :=
  let p := norm p
  if p = "tls" ∨ p = "ssl" ∨ p = "syslog-tls" then "tls" else if p = "tcp" then "tcp" else "udp"

def withDefaultPort (address port : String) : String :=
  let address := trimSpace address.toList
  if address.isEmpty then ""
  else if (Netip.splitHost address).isSome then String.ofList address
  else if 1 < address.count ':' ∧ address.head? ≠ some '[' then
    "[" ++ String.ofList address ++ "]:" ++ port
  else joinHostPort (String.ofList address) port

namespace SyslogConfig

def tlsConfigFor (std : Stdlib) (cfg : SyslogConfig) : Except GoErr TLSConfig := do
  let serverName := trimSpace cfg.serverName.toList
  let serverName :=
    if serverName.isEmpty then (Netip.splitHost cfg.address.toList).getD cfg.address.toList
    else serverName
  let rootCAs ← rootCAs std cfg.caCert
  let cert := trim cfg.clientCert
  let key := trim cfg.clientKey
  let certificate ←
    if cert ≠ "" ∧ key ≠ "" then
      match std.x509KeyPair cert key with
      | some text =>
          .error (.wrap "client certificate and key do not form a valid pair: " (.plain text))
      | none => .ok (some (cert, key))
    else if cert ≠ "" then
      .error (.plain "a client certificate was configured but its private key is missing")
    else if key ≠ "" then
      .error (.plain "a client private key was configured but its certificate is missing")
    else .ok none
  return { serverName := String.ofList serverName, insecureSkipVerify := cfg.insecureSkipVerify
           rootCAs, certificate }

def dial (std : Stdlib) (cfg : SyslogConfig) (proto address : String) (fault : Option Fault) :
    Except GoErr Unit :=
  let opened (front : String) : Except GoErr Unit :=
    match fault with
    | some f => .error (.wrap front f.err)
    | none => .ok ()
  if proto ≠ "tls" then opened ("dial " ++ proto ++ " " ++ address ++ ": ")
  else do
    let _ ← (cfg.tlsConfigFor std).mapError (.wrap "syslog TLS configuration: ")
    opened ("dial tls " ++ address ++ ": ")

/-- The address that `Send` dials. -/
def target (cfg : SyslogConfig) : String :=
  if normaliseProtocol cfg.protocol = "tls" then withDefaultPort cfg.address "6514"
  else cfg.address

/-- `SyslogSink.Send`. -/
def send (std : Stdlib) (cfg : SyslogConfig) (collector : Collector) : Except GoErr Unit := do
  cfg.dial std (normaliseProtocol cfg.protocol) cfg.target collector.dial
  match collector.write with
  | some f => .error f.err
  | none => .ok ()

end SyslogConfig

end SnmpLens.Notify
