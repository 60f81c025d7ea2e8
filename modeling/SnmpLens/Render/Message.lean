import SnmpLens.Lib.Json
import SnmpLens.Notify.Webhook
import SnmpLens.Render.Template

/-!
# Subject and body

`pkg/notify/render.go`, the rendering half of `template.go`, and what `webhook.go` makes
of a body before it is sent. A template decides what is written, the format of the body
how a value is written in it, and a body that is too long is cut at a rune and says so.
-/

namespace SnmpLens.Render

open Utf8
open Notify (WebhookConfig GoErr XMLToken wellFormedXML)

/-! ## The built-in rendering -/

def writeField (label : String) (value : Octets) : Octets :=
  if value = [] then [] else octets label ++ octets ": " ++ value ++ octets "\n"

def renderDefault (h : Host) (e : Event) : Octets × Octets :=
  (octets "[SnmpLens][" ++ h.toUpper e.severity ++ octets "] " ++ e.summary,
    e.summary ++ octets "\n\n" ++ writeField "Severity" e.severity
      ++ writeField "Category" e.category ++ writeField "Kind" e.kind ++ writeField "State" e.state
      ++ writeField "Time" e.ts ++ writeField "Source" e.source ++ writeField "OID" e.oid
      ++ writeField "Session" e.sessionName
      ++ (match e.value with
          | some x => writeField "Value" (h.formatFloat x)
          | none => [])
      ++ writeField "Event ID" e.id
      ++ (if e.corrID ≠ [] then writeField "Correlation" e.corrID else []))

/-! ## Values in a format -/

/-- `html.EscapeString`, of one octet. -/
def htmlEscapeOctet (b : UInt8) : Octets :=
  if b = chr '&' then octets "&amp;"
  else if b = chr '\'' then octets "&#39;"
  else if b = chr '<' then octets "&lt;"
  else if b = chr '>' then octets "&gt;"
  else if b = chr '"' then octets "&#34;"
  else [b]

def htmlEscape (v : Octets) : Octets := v.flatMap htmlEscapeOctet

def isInCharacterRange (r : Nat) : Bool :=
  r == 0x09 || r == 0x0a || r == 0x0d || (0x20 ≤ r && r ≤ 0xd7ff) || (0xe000 ≤ r && r ≤ 0xfffd)
    || (0x10000 ≤ r && r ≤ 0x10ffff)

/-- One rune of `xml.EscapeText`, of `n` octets. -/
def xmlEscapeRune (raw : Octets) (r n : Nat) : Octets :=
  if r = '"'.toNat then octets "&#34;"
  else if r = '\''.toNat then octets "&#39;"
  else if r = '&'.toNat then octets "&amp;"
  else if r = '<'.toNat then octets "&lt;"
  else if r = '>'.toNat then octets "&gt;"
  else if r = '\t'.toNat then octets "&#x9;"
  else if r = '\n'.toNat then octets "&#xA;"
  else if r = '\r'.toNat then octets "&#xD;"
  else if !isInCharacterRange r || (r == runeError && n == 1) then octets "\uFFFD"
  else raw

/-- The loop of `xml.EscapeText`, over at most `fuel` runes. -/
def xmlEscapeRunes : Nat → Octets → Octets
  | 0, _ => []
  | _, [] => []
  | fuel + 1, b :: rest =>
      let (r, n) := decodeRune (b :: rest)
      xmlEscapeRune ((b :: rest).take n) r n ++ xmlEscapeRunes fuel ((b :: rest).drop n)

def xmlEscape (v : Octets) : Octets := xmlEscapeRunes v.length v

def formEscape (v : Octets) : Octets := (Url.escape .queryComponent v).map chr

def escapeFor (w : WebhookConfig) : Octets → Octets :=
  if w.format = "text" then id
  else if w.format = "xml" then xmlEscape
  else if w.format = "form" then formEscape
  else Json.escape

/-! ## Templates -/

def collapseToOneLine (s : Octets) : Octets :=
  (octets " ").intercalate
    ((s.splitOnP fun b => b == chr '\r' || b == chr '\n').filter fun field => !field.isEmpty)

/-- `utf8.RuneStart`. -/
def runeStart (b : UInt8) : Bool := b.toNat / 64 != 2

/-- The loop of `truncateRunes`: where a rune starts, at or before an index. -/
def runeBoundary (s : Octets) : Nat → Nat
  | 0 => 0
  | cut + 1 => if runeStart (s.getD (cut + 1) 0) then cut + 1 else runeBoundary s cut

def truncated : Octets := octets "\n[truncated]"

def truncateRunes (s : Octets) (max : Nat) : Octets :=
  if s.length ≤ max then s else s.take (runeBoundary s max) ++ truncated

def renderWith (h : Host) (e : Event) (sinkName : Octets) (tpl : MessageTemplate)
    (escape : Option (Octets → Octets)) : Octets × Octets :=
  let lookup := resolveVariable h e sinkName
  let (defSubject, defBody) := renderDefault h e
  (if tpl.subject ≠ [] then collapseToOneLine (renderTemplateText tpl.subject lookup none)
    else defSubject,
    if tpl.body ≠ [] then truncateRunes (renderTemplateText tpl.body lookup escape) maxBodyLen
    else defBody)

def defaultJSONPayload : Octets :=
  octets "\x7b\n  \"severity\": \"\x7b\x7bseverity\x7d\x7d\",\n"
    ++ octets "  \"category\": \"\x7b\x7bcategory\x7d\x7d\",\n"
    ++ octets "  \"kind\": \"\x7b\x7bkind\x7d\x7d\",\n"
    ++ octets "  \"source\": \"\x7b\x7bsource\x7d\x7d\",\n"
    ++ octets "  \"oid\": \"\x7b\x7boid\x7d\x7d\",\n"
    ++ octets "  \"value\": \"\x7b\x7bvalue\x7d\x7d\",\n"
    ++ octets "  \"summary\": \"\x7b\x7bsummary\x7d\x7d\",\n"
    ++ octets "  \"time\": \"\x7b\x7bts\x7d\x7d\",\n"
    ++ octets "  \"eventId\": \"\x7b\x7bid\x7d\x7d\",\n"
    ++ octets "  \"sender\": \"SnmpLens\"\n\x7d"

/-- The body template a webhook renders. -/
def webhookBody (w : WebhookConfig) (body : Octets) : Octets :=
  if w.format = "json" ∧ Strings.trimSpace body = [] then defaultJSONPayload else body

def renderWebhookTemplate (h : Host) (w : WebhookConfig) (e : Event) (sinkName : Octets)
    (tpl : MessageTemplate) : Octets × Octets :=
  renderWith h e sinkName { tpl with body := webhookBody w tpl.body } (some (escapeFor w))

/-! ## What is sent -/

/-- `wellFormed`; `xmlTokens` are the tokens of a document, and the error behind them where it is
not EOF. -/
def wellFormed (xmlTokens : Octets → List XMLToken × Option String) (w : WebhookConfig)
    (body : Octets) : Except GoErr Unit :=
  if w.format = "json" then
    if Json.valid body then .ok ()
    else
      .error (.plain ("the rendered payload is not valid JSON; "
        ++ "check the quotes and commas in the message template"))
  else if w.format = "xml" then
    let (tokens, failure) := xmlTokens body
    (wellFormedXML failure 0 0 tokens).mapError
      (.wrap "the rendered payload is not well-formed XML: ")
  else .ok ()

/-- `payload`; `envelope` is what `json.Marshal` makes of the event, the subject and the body. -/
def payload (xmlTokens : Octets → List XMLToken × Option String) (w : WebhookConfig)
    (envelope : Except GoErr Octets) (body : Octets) : Except GoErr Octets :=
  if w.templated then
    let trimmed := Strings.trimSpace body
    if trimmed = [] then
      .error (.plain ("this webhook sends its message template as the payload, "
        ++ "but the template rendered nothing"))
    else (wellFormed xmlTokens w trimmed).map fun _ => trimmed
  else envelope

theorem payload_eq_ok_iff {xmlTokens : Octets → List XMLToken × Option String} {w : WebhookConfig}
    {envelope : Except GoErr Octets} {body sent : Octets} (hmode : w.templated = true) (hformat : w.format = "json") :
    payload xmlTokens w envelope body = .ok sent
      ↔ sent = Strings.trimSpace body ∧ Json.valid sent = true := by
  unfold payload wellFormed
  rw [if_pos hmode]
  dsimp only
  rw [if_pos hformat]
  by_cases hempty : Strings.trimSpace body = []
  · rw [if_pos hempty, hempty]
    constructor
    · intro h
      cases h
    · rintro ⟨rfl, hvalid⟩
      cases hvalid
  · rw [if_neg hempty]
    by_cases hvalid : Json.valid (Strings.trimSpace body) = true
    · rw [if_pos hvalid]
      constructor
      · intro h
        obtain rfl := Except.ok.inj h
        exact ⟨rfl, hvalid⟩
      · rintro ⟨rfl, _⟩
        rfl
    · rw [if_neg hvalid]
      constructor
      · intro h
        exact absurd h (by simp [Except.map])
      · rintro ⟨rfl, h⟩
        exact absurd h hvalid

end SnmpLens.Render
