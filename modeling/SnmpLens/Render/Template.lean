import Mathlib.Data.List.DropRight
import SnmpLens.Lib.Strings
import SnmpLens.Lib.Substring
import SnmpLens.Lib.Url
import SnmpLens.Notify.Route
import SnmpLens.Render.Event

/-!
# Message templates

`pkg/notify/template.go`: a template is cut into literal text and tags, a block tag that
stands alone on its line takes the line with it, and the tokens are walked once for an
event. Nothing of that fails; what is malformed is refused beforehand, by
`ValidateTemplate`, which scans the source on its own.

The offset of a token is left out: the scanner records it and nothing reads it. `Host`
is what the renderer takes from the machine it runs on and from Go's library.
-/

namespace SnmpLens.Render

open Utf8 Events

/-! ## Strings -/

/-- The octets `strings.Trim(s, " \t")` takes off. -/
def inline (b : UInt8) : Bool := b == chr ' ' || b == chr '\t'

/-- `strings.Trim(s, " \t")`. -/
def trimInline (s : Octets) : Octets := (s.dropWhile inline).rdropWhile inline

/-- `strings.CutPrefix`. -/
def cutPrefix (p s : Octets) : Option Octets := if p.isPrefixOf s then some (s.drop p.length) else none

/-- `strings.Index`. -/
def index (p : Octets) : Octets → Option Nat
  | [] => if p.isEmpty then some 0 else none
  | b :: s => if p.isPrefixOf (b :: s) then some 0 else (index p s).map (· + 1)

/-- `strings.ToLower` of a name, which is ASCII. -/
def lower (s : Octets) : Octets := s.map fun b => if chr 'A' ≤ b ∧ b ≤ chr 'Z' then b + 32 else b

/-- `strconv.FormatInt`, in base ten. -/
def formatInt (n : Int) : Octets :=
  if n < 0 then chr '-' :: Strings.formatUint n.natAbs else Strings.formatUint n.natAbs

/-! ## The vocabulary -/

structure MessageTemplate where
  subject : Octets := []
  body : Octets := []
deriving DecidableEq, Repr

def maxTemplateLen : Nat := 8192

def maxBodyLen : Nat := 65536

structure TemplateError where
  field : Octets
  offset : Nat
  token : Octets := []
  message : Octets
deriving DecidableEq, Repr

def reservedNames : List Octets :=
  ["secret", "password", "token", "community", "authpass", "privpass", "apikey"].map octets

/-- The names of `templateVariables`. -/
def knownVariables : List Octets :=
  ["severity", "severityUpper", "severityNumber", "category", "kind", "state", "summary", "source",
    "oid", "sessionName", "sessionId", "dedupKey", "corrId", "id", "seq", "ts", "tsLocal", "value",
    "hostname", "appVersion", "sinkName", "lb"].map octets

def paramsPrefix : Octets := octets "params."

/-! ## Scanning -/

inductive TokenKind where
  | literal
  | subst
  | blockOpen
  | blockClose
deriving DecidableEq, Repr

structure Token where
  kind : TokenKind
  /-- A literal, otherwise the tag as it stands in the source. -/
  text : Octets
  name : Octets := []
  fallback : Octets := []
  hasFall : Bool := false
  ownLine : Bool := false
deriving DecidableEq, Repr

/-- `validName`: a lowerCamelCase variable, or a key under `params.`. -/
def validName (s : Octets) : Bool :=
  match cutPrefix paramsPrefix s with
  | some rest =>
      !rest.isEmpty && rest.length ≤ 64
        && rest.all fun b => Url.alphanumeric b || b == chr '_'
  | none =>
      match s with
      | [] => false
      | b :: _ =>
          s.length ≤ 64 && (chr 'a' ≤ b && b ≤ chr 'z') && s.all Url.alphanumeric

/-- `parseTag`: the text between the braces. -/
def parseTag (inner raw : Octets) : Option Token :=
  match trimInline inner with
  | [] => none
  | first :: rest =>
      if first = chr '#' ∨ first = chr '/' then
        let name := trimInline rest
        if !validName name then none
        else
          some { kind := if first = chr '/' then .blockClose else .blockOpen, text := raw, name }
      else
        match index (octets "|") inner with
        | some pipe =>
            let name := trimInline (inner.take pipe)
            if !validName name then none
            else
              some { kind := .subst, text := raw, name, fallback := inner.drop (pipe + 1)
                     hasFall := true }
        | none =>
            if !validName (first :: rest) then none
            else some { kind := .subst, text := raw, name := first :: rest }

/-- What is flushed of the literal text so far. -/
def flush (lit : Octets) : List Token := if lit.isEmpty then [] else [{ kind := .literal, text := lit }]

/-- The loop of `scan`, `skip` octets being left of a tag. -/
def scanFrom : Nat → Octets → Octets → List Token
  | _, lit, [] => flush lit
  | skip + 1, lit, _ :: src => scanFrom skip lit src
  | 0, lit, b :: src =>
      if !(octets "\x7b\x7b").isPrefixOf (b :: src) then scanFrom 0 (lit ++ [b]) src
      else
        match index (octets "\x7d\x7d") ((b :: src).drop 2) with
        | none => flush (lit ++ b :: src)
        | some stop =>
            let raw := (b :: src).take (stop + 4)
            match parseTag (((b :: src).drop 2).take stop) raw with
            | none => scanFrom (stop + 3) (lit ++ raw) src
            | some tok => flush lit ++ tok :: scanFrom (stop + 3) [] src

/-! ## Lines -/

def newline : UInt8 := chr '\n'

def trimTrailingInlineSpace (s : Octets) : Octets := s.rdropWhile inline

def trimLeadingLine (s : Octets) : Octets :=
  if s.contains newline then (s.dropWhile (· != newline)).drop 1 else s.dropWhile inline

/-- `trailingBlankToNewline`, of the tokens before a tag, the last one first. -/
def trailingBlankToNewline : List Token → Bool
  | [] => true
  | prev :: before =>
      prev.kind = .literal && (prev.text.rtakeWhile (· != newline)).all inline
        && (prev.text.contains newline || before.isEmpty)

/-- `leadingBlankToNewline`, of the tokens behind a tag. -/
def leadingBlankToNewline : List Token → Bool
  | [] => true
  | next :: behind =>
      next.kind = .literal && (next.text.takeWhile (· != newline)).all inline
        && (next.text.contains newline || behind.isEmpty)

def Token.isBlock (t : Token) : Bool := t.kind = .blockOpen || t.kind = .blockClose

/-- The loop of `applyOwnLine`: the tokens it is through with, the last one first, and whether
the tag before the next one took the rest of its line. -/
def ownLines : List Token → Bool → List Token → List Token
  | done, _, [] => done.reverse
  | done, trimmed, t :: rest =>
      let t := if trimmed then { t with text := trimLeadingLine t.text } else t
      if t.isBlock && trailingBlankToNewline done && leadingBlankToNewline rest then
        let done :=
          match done with
          | [] => []
          | prev :: before => { prev with text := trimTrailingInlineSpace prev.text } :: before
        ownLines ({ t with ownLine := true } :: done) true rest
      else ownLines (t :: done) false rest

def applyOwnLine (toks : List Token) : List Token := ownLines [] false toks

def scan (src : Octets) : List Token := applyOwnLine (scanFrom 0 [] src)

/-! ## Rendering -/

/-- The loop of `renderTemplateText`: the block that is skipped, and the one that is open. -/
def renderTokens (lookup : Octets → Option Octets) (escape : Option (Octets → Octets)) :
    Octets → Octets → List Token → Octets
  | _, _, [] => []
  | skipUntil, inBlock, t :: rest =>
      if skipUntil ≠ [] then
        let skipUntil := if t.kind = .blockClose ∧ t.name = skipUntil then [] else skipUntil
        renderTokens lookup escape skipUntil inBlock rest
      else
        match t.kind with
        | .literal => t.text ++ renderTokens lookup escape skipUntil inBlock rest
        | .subst =>
            let out :=
              match lookup t.name with
              | none => t.text
              | some value =>
                  if value = [] ∧ t.hasFall then t.fallback
                  else
                    match escape with
                    | some f => f value
                    | none => value
            out ++ renderTokens lookup escape skipUntil inBlock rest
        | .blockOpen =>
            match lookup t.name with
            | none => t.text ++ renderTokens lookup escape skipUntil inBlock rest
            | some value =>
                renderTokens lookup escape (if value = [] then t.name else []) t.name rest
        | .blockClose =>
            if inBlock = t.name then renderTokens lookup escape skipUntil [] rest
            else t.text ++ renderTokens lookup escape skipUntil inBlock rest

def renderTemplateText (src : Octets) (lookup : Octets → Option Octets)
    (escape : Option (Octets → Octets)) : Octets :=
  renderTokens lookup escape [] [] (scan src)

/-- What rendering takes from elsewhere. -/
structure Host where
  /-- `strings.ToUpper`. -/
  toUpper : Octets → Octets
  /-- `strconv.FormatFloat(x, 'g', -1, 64)`, which `%g` is too. -/
  formatFloat : Float64 → Octets
  /-- A stamp in local time, if `time.Parse` takes it. -/
  localTime : Octets → Option Octets
  /-- `os.Hostname`. -/
  hostname : Option Octets
  appVersion : Octets

def stringifyParam (h : Host) : Param → Octets
  | .str s => s
  | .bool b => octets (if b then "true" else "false")
  | .int n => formatInt n
  | .float x => h.formatFloat x
  | .composite => []

/-- What one of the variables says. -/
def resolveField (h : Host) (e : Event) (sinkName name : Octets) : Option Octets :=
  if name = octets "severity" then some e.severity
  else if name = octets "severityUpper" then some (h.toUpper e.severity)
  else if name = octets "severityNumber" then
    some (Strings.formatUint (Notify.parseSeverity (text e.severity)))
  else if name = octets "category" then some e.category
  else if name = octets "kind" then some e.kind
  else if name = octets "state" then some e.state
  else if name = octets "summary" then some e.summary
  else if name = octets "source" then some e.source
  else if name = octets "oid" then some e.oid
  else if name = octets "sessionName" then some e.sessionName
  else if name = octets "sessionId" then some e.sessionID
  else if name = octets "dedupKey" then some e.dedupKey
  else if name = octets "corrId" then some e.corrID
  else if name = octets "id" then some e.id
  else if name = octets "seq" then some (if e.seq = 0 then [] else formatInt e.seq)
  else if name = octets "ts" then some e.ts
  else if name = octets "tsLocal" then some ((h.localTime e.ts).getD e.ts)
  else if name = octets "value" then some ((e.value.map h.formatFloat).getD [])
  else if name = octets "hostname" then some (h.hostname.getD [])
  else if name = octets "appVersion" then some h.appVersion
  else if name = octets "sinkName" then some sinkName
  else if name = octets "lb" then some (octets "\x7b\x7b")
  else none

def resolveVariable (h : Host) (e : Event) (sinkName name : Octets) : Option Octets :=
  match cutPrefix paramsPrefix name with
  | some key =>
      if lower key ∈ reservedNames then none
      else
        match e.params.lookup key with
        | none => some []
        | some v => some (stringifyParam h v)
  | none => resolveField h e sinkName name

/-! ## Validation -/

/-- What the name of a tag is refused for. -/
def checkName (tok : Token) : Option Octets :=
  let bare := (cutPrefix paramsPrefix tok.name).getD tok.name
  if lower tok.name ∈ reservedNames ∨ lower bare ∈ reservedNames then
    some (octets "\"" ++ tok.name ++ octets "\" is reserved and can never be rendered")
  else if !paramsPrefix.isPrefixOf tok.name && !knownVariables.contains tok.name then
    some (octets "unknown variable \"" ++ tok.name ++ octets "\"")
  else none

/-- What a block tag is refused for, where the block `opened` is open. -/
def checkBlock (opened : Octets) (tok : Token) : Option Octets :=
  match tok.kind with
  | .blockOpen =>
      if opened ≠ [] then
        some (octets "blocks cannot be nested; \x7b\x7b#" ++ opened ++ octets "\x7d\x7d is still open")
      else none
  | .blockClose =>
      if opened = [] then some (octets "this closing tag has no matching opening tag")
      else if opened ≠ tok.name then
        some (octets "expected \x7b\x7b/" ++ opened ++ octets "\x7d\x7d to close the block opened here")
      else none
  | _ => none

/-- The block that is open behind a tag that nothing is wrong with. -/
def openedBehind (opened : Octets × Nat) (tok : Token) (offset : Nat) : Octets × Nat :=
  match tok.kind with
  | .blockOpen => (tok.name, offset)
  | .blockClose => ([], opened.2)
  | _ => opened

/-- What a tag is refused for, and the block that is open behind it. -/
def checkTag (field : Octets) (offset : Nat) (opened : Octets × Nat) (tok : Token) :
    List TemplateError × (Octets × Nat) :=
  let fallErr : List TemplateError :=
    if tok.hasFall ∧ (index (octets "\x7b\x7b") tok.fallback).isSome then
      [{ field, offset, token := tok.text
         message := octets "a default value cannot contain another tag" }]
    else []
  match (checkName tok).or (checkBlock opened.1 tok) with
  | some message => (fallErr ++ [{ field, offset, token := tok.text, message }], opened)
  | none => (fallErr, openedBehind opened tok offset)

/-- What is wrong at the end of the source: a block that is still open. -/
def checkEnd (field : Octets) (opened : Octets × Nat) : List TemplateError :=
  if opened.1 = [] then []
  else
    [{ field, offset := opened.2, token := octets "\x7b\x7b#" ++ opened.1 ++ octets "\x7d\x7d"
       message := octets "this block is never closed with \x7b\x7b/" ++ opened.1
         ++ octets "\x7d\x7d" }]

/-- The loop of `validateField`, `skip` octets being left of a tag. -/
def validateFrom (field : Octets) : Nat → Nat → Octets × Nat → Octets → List TemplateError
  | _, _, opened, [] => checkEnd field opened
  | skip + 1, i, opened, _ :: src => validateFrom field skip (i + 1) opened src
  | 0, i, opened, b :: src =>
      if !(octets "\x7b\x7b").isPrefixOf (b :: src) then validateFrom field 0 (i + 1) opened src
      else
        match index (octets "\x7d\x7d") ((b :: src).drop 2) with
        | none =>
            { field, offset := i, token := octets "\x7b\x7b"
              message := octets "this \x7b\x7b is never closed with \x7d\x7d" }
              :: checkEnd field opened
        | some stop =>
            let raw := (b :: src).take (stop + 4)
            match parseTag (((b :: src).drop 2).take stop) raw with
            | none =>
                { field, offset := i, token := raw
                  message := octets ("not a valid tag; expected \x7b\x7bname\x7d\x7d, "
                    ++ "\x7b\x7bname|default\x7d\x7d, \x7b\x7b#name\x7d\x7d or \x7b\x7b/name\x7d\x7d") }
                  :: validateFrom field (stop + 3) (i + 1) opened src
            | some tok =>
                let (errs, opened) := checkTag field i opened tok
                errs ++ validateFrom field (stop + 3) (i + 1) opened src

def validateField (field src : Octets) : List TemplateError :=
  if src = [] then []
  else if maxTemplateLen < src.length then
    [{ field, offset := maxTemplateLen
       message := octets "a template may not exceed " ++ Strings.formatUint maxTemplateLen
         ++ octets " bytes" }]
  else validateFrom field 0 0 ([], 0) src

/-- Where the first line break of a subject is. -/
def lineBreak (s : Octets) : Option Nat := s.findIdx? fun b => b == chr '\r' || b == chr '\n'

def validateTemplate (tpl : MessageTemplate) : List TemplateError :=
  validateField (octets "subject") tpl.subject ++ validateField (octets "body") tpl.body
    ++ match lineBreak tpl.subject with
      | some i =>
          [{ field := octets "subject", offset := i
             message := octets "a subject must be a single line" }]
      | none => []

end SnmpLens.Render
