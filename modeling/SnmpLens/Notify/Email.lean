import SnmpLens.Lib.Attempt
import SnmpLens.Lib.Textproto
import SnmpLens.Notify.Sink

/-!
# The email sink

`pkg/notify/email.go` over `net/smtp`. A conversation reads its answers one after
the other, and each command reads one. So a relay is given by what the client finds
when it reads the answer to this command or that; whatever a relay writes, and
whenever it writes it, comes down to one such choice. A command that cannot be
written ends as a read does that finds no line.

The client keeps a log of the answers it has read. Nothing in the code looks at
it: it is there to say afterwards what a relay has really answered.
-/

namespace SnmpLens.Notify

open Utf8 Textproto

/-- What an answer is an answer to. -/
inductive Asked where
  | greeting
  | ehlo
  | helo
  | starttls
  | auth
  | mail
  | rcpt
  | data
  /-- The end of the message. -/
  | closing
deriving DecidableEq, Repr

/-- An answer that was read, and its code if it has one. -/
structure Exchange where
  asked : Asked
  code : Option Nat
deriving DecidableEq, Repr

/-- A relay, for one conversation. -/
structure Relay where
  connect : Option Fault
  greeting : Answer Fault
  ehlo : Answer Fault
  helo : Answer Fault
  starttls : Answer Fault
  /-- To the `EHLO` that follows `STARTTLS`; the handshake is a part of that exchange. -/
  ehloTLS : Answer Fault
  /-- To each line of the `AUTH` exchange, and what ends the wait for one more. -/
  auth : List (Answer Fault)
  authEnd : Fault
  mail : Answer Fault
  /-- To the `RCPT` of each recipient in turn. -/
  rcpt : Nat → Answer Fault
  data : Answer Fault
  write : Option Fault
  closing : Answer Fault

/-- `smtp.Client`. -/
structure Client where
  tls : Bool
  didHello : Bool := false
  helloError : Option GoErr := none
  /-- The keys of `ext`. -/
  ext : List Octets := []
  log : List Exchange := []

abbrev Conversation := Attempt GoErr Client

/-- `fmt.Errorf("front%w", err)` around whatever error comes. -/
def wrapped {α : Type} (front : String) (m : Conversation α) : Conversation α :=
  m.mapError (.wrap front)

/-! ## `net/smtp` -/

/-- `ReadResponse`. -/
def respond (expect : Nat) (a : Answer Fault) : Except GoErr (Nat × Octets) :=
  match a.read with
  | .fault f => .error f.err
  | .malformed text => .error (.plain text)
  | .reply code message =>
      if expected expect code then .ok (code, message) else .error (.smtp code (text message))

/-- `Client.cmd`. -/
def cmd (asked : Asked) (expect : Nat) (a : Answer Fault) : Conversation (Nat × Octets) := do
  .modify fun c => { c with log := c.log ++ [⟨asked, a.code⟩] }
  .ofExcept (respond expect a)

def validateLine (line : String) : Except GoErr Unit :=
  if line.toList.any fun c => c == '\n' || c == '\r' then
    .error (.plain "smtp: A line must not contain CR or LF")
  else .ok ()

/-- The keys that the lines behind the first one announce. -/
def extensions (message : Octets) : List Octets :=
  (message.splitOn (chr '\n')).tail.map fun line => line.takeWhile (· != chr ' ')

def ehlo (a : Answer Fault) : Conversation Unit := do
  let (_, message) ← cmd .ehlo 250 a
  .modify fun c => { c with ext := extensions message }

def helo (a : Answer Fault) : Conversation Unit := do
  .modify fun c => { c with ext := [] }
  let _ ← cmd .helo 250 a

/-- The part of `hello` that is done once: `EHLO`, or else `HELO`, and what came of it. -/
def greet (r : Relay) : Conversation Unit := do
  .modify fun c => { c with didHello := true }
  match ← (ehlo r.ehlo).result with
  | .ok _ => pure ()
  | .error _ =>
      match ← (helo r.helo).result with
      | .ok _ => .modify fun c => { c with helloError := none }
      | .error err => .modify fun c => { c with helloError := some err }

def hello (r : Relay) : Conversation Unit := do
  greetOnce
  lastHelloError
where
  greetOnce : Conversation Unit := do
    let c ← .get
    if c.didHello then pure () else greet r
  /-- `helloError`, every time. -/
  lastHelloError : Conversation Unit := do
    let c ← .get
    match c.helloError with
    | some err => .fail err
    | none => pure ()

def extension (r : Relay) (ext : String) : Conversation Bool := do
  match ← (hello r).result with
  | .error _ => pure false
  | .ok _ =>
      let c ← .get
      pure (c.ext.contains (octets ext))

def startTLS (r : Relay) : Conversation Unit := do
  hello r
  let _ ← cmd .starttls 220 r.starttls
  .modify fun c => { c with tls := true }
  ehlo r.ehloTLS

/-- `smtp.Auth`: whether it starts on a server of this name, over TLS or not, and its
answer to a challenge or to the end of the exchange. -/
structure Auth where
  start : String → Bool → Except GoErr Unit
  next : Octets → Bool → Except GoErr (Option Octets)

/-- `smtp.PlainAuth`. -/
def plainAuth (host : String) : Auth where
  start server tls :=
    if !tls && !(["localhost", "127.0.0.1", "::1"].contains server) then
      .error (.plain "unencrypted connection")
    else if server ≠ host then .error (.plain "wrong host name")
    else .ok ()
  next _ more := if more then .error (.plain "unexpected server challenge") else .ok none

def loginAuth (std : Stdlib) (username password host : String) (tlsOK : Bool) : Auth where
  start server tls :=
    if !tls && !tlsOK then
      .error (.plain "refusing to send AUTH LOGIN credentials over an unencrypted connection")
    else if server ≠ host then
      .error (.plain "smtp: server name does not match the configured host")
    else .ok ()
  next fromServer more :=
    if !more then .ok none
    else if norm (text fromServer) = "username:" then .ok (some (octets username))
    else if norm (text fromServer) = "password:" then .ok (some (octets password))
    else
      .error (.plain ("smtp: unexpected AUTH LOGIN challenge " ++ quote std.isPrint fromServer))

/-- `base64.CorruptInputError`. -/
def corruptInput (pos : Nat) : GoErr :=
  .plain ("illegal base64 data at input byte " ++ toString pos)

/-- What one answer of the exchange leads to: what to send next, or the end of it. -/
def Auth.reply (auth : Auth) (code : Nat) (message : Octets) : Except GoErr (Option Octets) :=
  if code = 334 then
    match Base64.decode message with
    | .error pos => .error (corruptInput pos)
    | .ok challenge => auth.next challenge true
  else if code = 235 then auth.next message false
  else .error (.smtp code (text message))

/-- The loop of `Client.Auth`. What the abort and the `QUIT` behind it are answered is not
looked at. -/
def authLoop (auth : Auth) (last : Fault) : List (Answer Fault) → Conversation Unit
  | [] => .fail last.err
  | a :: rest => do
      let (code, message) ← cmd .auth 0 a
      match ← .ofExcept (auth.reply code message) with
      | none => pure ()
      | some _ => authLoop auth last rest

/-- `Client.Auth`. -/
def Auth.run (auth : Auth) (host : String) (r : Relay) : Conversation Unit := do
  hello r
  let c ← .get
  .ofExcept (auth.start host c.tls)
  authLoop auth r.authEnd r.auth

/-- `Client.Mail`. -/
def mail (r : Relay) (sender : String) : Conversation Unit := do
  .ofExcept (validateLine sender)
  hello r
  let _ ← cmd .mail 250 r.mail

/-- `Client.Rcpt`. -/
def rcpt (a : Answer Fault) (addr : String) : Conversation Unit := do
  .ofExcept (validateLine addr)
  let _ ← cmd .rcpt 25 a

/-! ## `Send` -/

namespace EmailConfig

/-- The check at the top. -/
def incomplete (cfg : EmailConfig) : Bool :=
  cfg.host == "" || cfg.sender == "" || cfg.recipients.isEmpty

def tlsConfig (std : Stdlib) (cfg : EmailConfig) : Except GoErr TLSConfig := do
  let serverName := trim cfg.serverName
  let rootCAs ← rootCAs std cfg.caCert
  return { serverName := if serverName = "" then cfg.host else serverName
           insecureSkipVerify := cfg.insecureSkipVerify, rootCAs }

/-- The address dialled. -/
def addr (cfg : EmailConfig) : String :=
  joinHostPort cfg.host (toString (if cfg.port = 0 then 587 else cfg.port))

/-- A fault, where there is one, is the end. -/
def stopAt (front : String) : Option Fault → Conversation Unit
  | some f => .fail (.wrap front f.err)
  | none => pure ()

/-- The connection and the relay's greeting. -/
def connect (cfg : EmailConfig) (r : Relay) : Conversation Unit := do
  stopAt ("connect to " ++ cfg.addr ++ ": ") r.connect
  let _ ← wrapped "smtp handshake: " (cmd .greeting 220 r.greeting)

/-- The encryption: whether it is on in the end. -/
def secure (cfg : EmailConfig) (r : Relay) : Conversation Bool := do
  let encryption := norm cfg.encryption
  if encryption = "starttls" ∨ encryption = "" then
    if ← extension r "STARTTLS" then
      wrapped "starttls: " (startTLS r)
      pure true
    else if encryption = "starttls" then .fail (.plain "server does not offer STARTTLS")
    else pure false
  else pure (encryption == "tls")

/-- `AuthMethod` is one of those there are. -/
def knownAuth (cfg : EmailConfig) : Bool := ["", "plain", "login", "none"].contains (norm cfg.authMethod)

/-- The authentication. -/
def authenticate (std : Stdlib) (cfg : EmailConfig) (r : Relay) (usingTLS : Bool) :
    Conversation Unit :=
  let method := norm cfg.authMethod
  if method = "" ∨ method = "plain" then
    if cfg.username ≠ "" then wrapped "smtp auth: " ((plainAuth cfg.host).run cfg.host r)
    else pure ()
  else if method = "login" then
    wrapped "smtp auth (login): "
      ((loginAuth std cfg.username cfg.password cfg.host usingTLS).run cfg.host r)
  else if method = "none" then pure ()
  else .fail (.plain ("unknown SMTP auth method " ++ quote std.isPrint (octets cfg.authMethod)))

/-- What the refusal of a recipient is reported as. -/
def refusal (addr : String) (err : GoErr) : GoErr := .wrap ("RCPT TO " ++ addr ++ ": ") err

/-- The loop over the recipients, from the `i`-th on: how many were accepted, and the first
refusal. -/
def offer (r : Relay) : Nat → List String → Nat → Option GoErr → Conversation (Nat × Option GoErr)
  | _, [], accepted, refused => pure (accepted, refused)
  | i, addr :: rest, accepted, refused => do
      let addr := trim addr
      match ← (rcpt (r.rcpt i) addr).result with
      | .ok _ => offer r (i + 1) rest (accepted + 1) refused
      | .error err => offer r (i + 1) rest accepted (refused.or (some (refusal addr err)))

/-- The recipients. -/
def address (cfg : EmailConfig) (r : Relay) : Conversation Unit := do
  let (accepted, refused) ← offer r 0 cfg.recipients 0 none
  if accepted = 0 then .fail (refused.getD (.plain "no recipients")) else pure ()

/-- The message. -/
def transmit (r : Relay) : Conversation Unit := do
  let _ ← wrapped "DATA: " (cmd .data 354 r.data)
  stopAt "write message: " r.write
  let _ ← wrapped "close message: " (cmd .closing 250 r.closing)

/-- Everything before the first recipient. -/
def opening (std : Stdlib) (cfg : EmailConfig) (r : Relay) : Conversation Unit := do
  cfg.connect r
  let usingTLS ← cfg.secure r
  cfg.authenticate std r usingTLS
  wrapped "MAIL FROM: " (mail r cfg.sender)

/-- The conversation. -/
def converse (std : Stdlib) (cfg : EmailConfig) (r : Relay) : Conversation Unit := do
  cfg.opening std r
  cfg.address r
  transmit r

/-- What `Send` checks before it connects. -/
def ready (std : Stdlib) (cfg : EmailConfig) : Except GoErr Unit :=
  if cfg.incomplete then
    .error (.plain
      "email sink is incomplete (host, from and at least one recipient are required)")
  else (cfg.tlsConfig std).map fun _ => ()

/-- The client once the conversation is over. -/
def client (std : Stdlib) (cfg : EmailConfig) (r : Relay) : Except GoErr Unit × Client :=
  cfg.converse std r { tls := norm cfg.encryption == "tls" }

/-- `EmailSink.Send`. -/
def send (std : Stdlib) (cfg : EmailConfig) (r : Relay) : Except GoErr Unit :=
  (do
    cfg.ready std
    (cfg.client std r).1).mapError (scrubSecret cfg.password)

end EmailConfig

end SnmpLens.Notify
