import SnmpLens.Lib.Fold
import SnmpLens.Lib.Hex
import SnmpLens.Lib.Rfc5424
import SnmpLens.Render.Template

/-!
# Syslog records

`FormatRFC5424` of `pkg/notify/syslog.go` and the helpers that every text goes through on
its way into the record: a field of the header keeps its printable ASCII, a parameter and
the message keep everything but the control characters, which are spelled out. What an
event says can therefore not look like a part of the record (`formatRFC5424_reads`): the
reader of the grammar finds the record the program meant, and nothing else in it.

`SyslogHost` is the machine: its name, its clock, and what `time.Parse` makes of a stamp.
-/

namespace SnmpLens.Render

open Utf8 Rfc5424

/-! ## Sanitising -/

/-- NILVALUE. -/
def syslogNil : Octets := [chr '-']

def utf8BOM : Octets := [0xef, 0xbb, 0xbf]

/-- The loop of `sanitizePrintUSASCII`. -/
def writePrint (max : Nat) : Octets → List Nat → Octets
  | out, [] => out
  | out, r :: rs =>
      if r < 33 ∨ 126 < r then writePrint max out rs
      else if max ≤ (out ++ [UInt8.ofNat r]).length then out ++ [UInt8.ofNat r]
      else writePrint max (out ++ [UInt8.ofNat r]) rs

def sanitizePrintUSASCII (s : Octets) (max : Nat) : Octets :=
  if s = [] then syslogNil
  else
    let out := writePrint max [] (Fold.scalars s.length s)
    if out = [] then syslogNil else out

/-- `needsBodyEscape`: the C0 controls and DEL, minus TAB. -/
def needsBodyEscape (r : Nat) : Bool := (r < 0x20 && r != '\t'.toNat) || r == 0x7f

/-- One rune in the loop of `sanitizeBody`. -/
def escapeRune (r : Nat) : Octets :=
  if r = '\n'.toNat then octets "\\n"
  else if r = '\r'.toNat then octets "\\r"
  else if r = 0 then octets "\\0"
  else if needsBodyEscape r then octets "\\x" ++ Hex.encode [UInt8.ofNat r]
  else encodeRune r

def sanitizeBody (s : Octets) : Octets :=
  if !(Fold.scalars s.length s).any needsBodyEscape then s
  else (Fold.scalars s.length s).flatMap escapeRune

/-! ## The record -/

/-- What `FormatRFC5424` reads of a `SyslogConfig`. -/
structure SyslogConfig where
  facility : Int := 0
  hostname : Octets := []
  appName : Octets := []
  omitStructuredData : Bool := false
deriving DecidableEq, Repr

/-- A `time.Time` in UTC, to the microsecond. -/
structure Stamp where
  year : Int
  month : Nat
  day : Nat
  hour : Nat
  minute : Nat
  second : Nat
  micro : Nat
deriving DecidableEq, Repr

/-- What the formatter asks the machine and the library. -/
structure SyslogHost where
  hostname : Option Octets
  now : Stamp
  /-- `time.Parse(time.RFC3339, s)`, in UTC. -/
  parseTime : Octets → Option Stamp

/-- A number of so many digits at least. -/
def zeroPad (width n : Nat) : Octets :=
  List.replicate (width - (Strings.formatUint n).length) (chr '0') ++ Strings.formatUint n

/-- `Format("2006-01-02T15:04:05.000000Z")`. -/
def Stamp.format (t : Stamp) : Octets :=
  (if t.year < 0 then [chr '-'] else []) ++ zeroPad 4 t.year.natAbs
    ++ chr '-' :: zeroPad 2 t.month ++ chr '-' :: zeroPad 2 t.day
    ++ chr 'T' :: zeroPad 2 t.hour ++ chr ':' :: zeroPad 2 t.minute ++ chr ':' :: zeroPad 2 t.second
    ++ chr '.' :: zeroPad 6 t.micro ++ [chr 'Z']

/-- `Severity.Syslog`. -/
def syslogSeverity : Nat → Nat
  | 5 => 2
  | 4 => 3
  | 3 => 4
  | 2 => 5
  | _ => 6

/-- The pairs of the `strings.NewReplacer`. -/
def sdReplacer : List (UInt8 × Octets) :=
  [(chr '\\', octets "\\\\"), (chr '"', octets "\\\""), (chr ']', octets "\\]")]

def esc (v : Octets) : Octets :=
  (sanitizeBody v).flatMap fun b => (sdReplacer.lookup b).getD [b]

/-- The structured data of an event. -/
def eventData (e : Event) : Octets :=
  octets "[snmplens@0 id=\"" ++ esc e.id ++ octets "\" category=\"" ++ esc e.category
    ++ octets "\" severity=\"" ++ esc e.severity ++ octets "\" state=\"" ++ esc e.state ++ octets "\""
    ++ (if e.source ≠ [] then octets " source=\"" ++ esc e.source ++ octets "\"" else [])
    ++ (if e.oid ≠ [] then octets " oid=\"" ++ esc e.oid ++ octets "\"" else [])
    ++ octets "]"

def formatRFC5424 (h : SyslogHost) (cfg : SyslogConfig) (e : Event) (message : Octets) : Octets :=
  let facility := if cfg.facility < 0 ∨ 23 < cfg.facility then 16 else cfg.facility
  let severity := syslogSeverity (Notify.parseSeverity (text e.severity))
  let pri := facility * 8 + severity
  let hostname := if cfg.hostname = [] then h.hostname.getD [] else cfg.hostname
  let appName := if cfg.appName = [] then octets "SnmpLens" else cfg.appName
  let stamp := (h.parseTime e.ts).getD h.now
  let sd := if cfg.omitStructuredData then syslogNil else eventData e
  let message := if message = [] then e.summary else message
  octets "<" ++ formatInt pri ++ octets ">1 " ++ stamp.format
    ++ octets " " ++ sanitizePrintUSASCII hostname 255
    ++ octets " " ++ sanitizePrintUSASCII appName 48
    ++ octets " " ++ syslogNil
    ++ octets " " ++ sanitizePrintUSASCII e.kind 32
    ++ octets " " ++ sd ++ (octets " " ++ utf8BOM) ++ sanitizeBody message

/-! ## What the record is meant to say -/

/-- The parameters of an event, as they are meant. -/
def eventParams (e : Event) : List (Octets × Octets) :=
  [(octets "id", sanitizeBody e.id), (octets "category", sanitizeBody e.category),
    (octets "severity", sanitizeBody e.severity), (octets "state", sanitizeBody e.state)]
    ++ (if e.source ≠ [] then [(octets "source", sanitizeBody e.source)] else [])
    ++ (if e.oid ≠ [] then [(octets "oid", sanitizeBody e.oid)] else [])

/-- The record of an event: seven fields, one element or none, and the message. -/
def syslogRecord (h : SyslogHost) (cfg : SyslogConfig) (e : Event) (message : Octets) : Record where
  pri := (if cfg.facility < 0 ∨ 23 < cfg.facility then 16 else cfg.facility.toNat) * 8
    + syslogSeverity (Notify.parseSeverity (text e.severity))
  version := 1
  timestamp := ((h.parseTime e.ts).getD h.now).format
  hostname := sanitizePrintUSASCII (if cfg.hostname = [] then h.hostname.getD [] else cfg.hostname) 255
  appName := sanitizePrintUSASCII (if cfg.appName = [] then octets "SnmpLens" else cfg.appName) 48
  procID := syslogNil
  msgID := sanitizePrintUSASCII e.kind 32
  data := if cfg.omitStructuredData then [] else [(octets "snmplens@0", eventParams e)]
  msg := utf8BOM ++ sanitizeBody (if message = [] then e.summary else message)

/-! ## Header fields -/

theorem writePrint_spec {max : Nat} {out : Octets} {rs : List Nat} (hout : ∀ b ∈ out, isPrint b = true)
    (hlen : out.length < max) :
    (∀ b ∈ writePrint max out rs, isPrint b = true) ∧ (writePrint max out rs).length ≤ max := by
  induction rs generalizing out with
  | nil => exact ⟨hout, Nat.le_of_lt hlen⟩
  | cons r rs ih =>
      unfold writePrint
      by_cases hr : r < 33 ∨ 126 < r
      · rw [if_pos hr]
        exact ih hout hlen
      · have hnat : (UInt8.ofNat r).toNat = r := UInt8.toNat_ofNat_of_lt' (by show r < 256; omega)
        have hnext : ∀ b ∈ out ++ [UInt8.ofNat r], isPrint b = true := by
          intro b hb
          rcases List.mem_append.mp hb with hb | hb
          · exact hout b hb
          · rw [List.mem_singleton.mp hb]
            simp only [isPrint, UInt8.le_iff_toNat_le, hnat, Bool.and_eq_true, decide_eq_true_eq]
            exact ⟨Nat.le_of_not_lt fun hlt => hr (.inl hlt), Nat.le_of_not_lt fun hlt => hr (.inr hlt)⟩
        have hone : (out ++ [UInt8.ofNat r]).length = out.length + 1 := List.length_append
        rw [if_neg hr]
        by_cases hmax : max ≤ (out ++ [UInt8.ofNat r]).length
        · rw [if_pos hmax]
          exact ⟨hnext, by omega⟩
        · rw [if_neg hmax]
          exact ih hnext (Nat.lt_of_not_le hmax)

theorem isRun_syslogNil {max : Nat} (h : 0 < max) : IsRun isPrint max syslogNil :=
  ⟨by decide, by decide, h⟩

/-- **A header field is a field of the grammar**, whatever it is made of. -/
theorem isRun_sanitizePrint {max : Nat} (h : 0 < max) (s : Octets) :
    IsRun isPrint max (sanitizePrintUSASCII s max) := by
  unfold sanitizePrintUSASCII
  split
  · exact isRun_syslogNil h
  · dsimp only
    split
    · exact isRun_syslogNil h
    · rename_i hne
      have hspec := @writePrint_spec max [] (Fold.scalars s.length s)
        (fun b hb => absurd hb List.not_mem_nil) h
      exact ⟨hspec.1, hne, hspec.2⟩

theorem isPrint_of_isDigit {b : UInt8} (h : Strings.isDigit b = true) : isPrint b = true := by
  have hb := Strings.isDigit_iff.mp h
  simp only [isPrint, UInt8.le_iff_toNat_le, Bool.and_eq_true, decide_eq_true_eq]
  exact ⟨Nat.le_trans (by decide) hb.1, Nat.le_trans hb.2 (by decide)⟩

theorem isPrint_zeroPad {width n : Nat} {b : UInt8} (h : b ∈ zeroPad width n) : isPrint b = true := by
  rcases List.mem_append.mp h with h | h
  · rw [(List.mem_replicate.mp h).2]
    decide
  · exact isPrint_of_isDigit (Strings.isDigit_of_mem h)

theorem isRun_format (t : Stamp) : IsRun isPrint t.format.length t.format := by
  have hsign : ∀ b ∈ (if t.year < 0 then [chr '-'] else []), isPrint b = true := by
    intro b hb
    split at hb
    · rw [List.mem_singleton.mp hb]
      decide
    · cases hb
  refine ⟨?_, by simp [Stamp.format], Nat.le_refl _⟩
  unfold Stamp.format
  simp only [List.forall_mem_append, List.forall_mem_cons]
  refine ⟨⟨⟨⟨⟨⟨⟨⟨hsign, ?_⟩, ?_, ?_⟩, ?_, ?_⟩, ?_, ?_⟩, ?_, ?_⟩, ?_, ?_⟩, ?_, ?_⟩, ?_, ?_⟩
  all_goals first
    | exact fun b hb => isPrint_zeroPad hb
    | exact fun b hb => absurd hb List.not_mem_nil
    | decide

/-! ## Structured data and message -/

theorem esc_eq (v : Octets) : esc v = escape (sanitizeBody v) := by
  unfold esc escape
  refine List.flatMap_congr fun b _ => ?_
  unfold isEscaped sdReplacer
  by_cases hback : b = chr '\\'
  · rw [hback]
    rfl
  · by_cases hquote : b = chr '"'
    · rw [hquote]
      rfl
    · by_cases hbracket : b = chr ']'
      · rw [hbracket]
        rfl
      · simp [List.lookup_cons, beq_eq_false_iff_ne.mpr hback, beq_eq_false_iff_ne.mpr hquote,
          beq_eq_false_iff_ne.mpr hbracket]

theorem eventData_eq (e : Event) : eventData e = writeData [(octets "snmplens@0", eventParams e)] := by
  have hid : octets "[snmplens@0 id=\"" = chr '[' :: octets "snmplens@0" ++ chr ' ' :: octets "id"
      ++ [chr '=', chr '"'] := by decide
  have hnext : ∀ name, name ∈ ["category", "severity", "state"] →
      octets ("\" " ++ name ++ "=\"") = chr '"' :: chr ' ' :: octets name ++ [chr '=', chr '"'] := by
    decide
  have hmore : ∀ name, name ∈ ["source", "oid"] →
      octets (" " ++ name ++ "=\"") = chr ' ' :: octets name ++ [chr '=', chr '"'] := by
    decide
  have hcategory := hnext "category" (by simp)
  have hseverity := hnext "severity" (by simp)
  have hstate := hnext "state" (by simp)
  have hsource := hmore "source" (by simp)
  have hoid := hmore "oid" (by simp)
  have hquote : octets "\"" = [chr '"'] := by decide
  have hbracket : octets "]" = [chr ']'] := by decide
  change octets "\" category=\"" = _ at hcategory
  change octets "\" severity=\"" = _ at hseverity
  change octets "\" state=\"" = _ at hstate
  change octets " source=\"" = _ at hsource
  change octets " oid=\"" = _ at hoid
  unfold eventData eventParams writeData
  rw [List.isEmpty_cons, if_neg Bool.false_ne_true, hid, hcategory, hseverity, hstate, hsource, hoid,
    hquote, hbracket]
  by_cases hs : e.source = []
  · by_cases ho : e.oid = []
    · simp [hs, ho, writeElement, writeParam, esc_eq]
    · simp [hs, ho, writeElement, writeParam, esc_eq]
  · by_cases ho : e.oid = []
    · simp [hs, ho, writeElement, writeParam, esc_eq]
    · simp [hs, ho, writeElement, writeParam, esc_eq]

theorem formatInt_natCast (n : Nat) : formatInt n = Strings.formatUint n := by
  unfold formatInt
  rw [if_neg (by omega), Int.natAbs_natCast]

theorem formatRFC5424_eq (h : SyslogHost) (cfg : SyslogConfig) (e : Event) (message : Octets) :
    formatRFC5424 h cfg e message = (syslogRecord h cfg e message).write := by
  have hopen : octets "<" = [chr '<'] := by decide
  have hversion : octets ">1 " = chr '>' :: Strings.formatUint 1 ++ [chr ' '] := by decide
  have hspace : octets " " = [chr ' '] := by decide
  have hpri : ∀ n : Nat, (if cfg.facility < 0 ∨ 23 < cfg.facility then 16 else cfg.facility) * 8
      + (n : Int) = (((if cfg.facility < 0 ∨ 23 < cfg.facility then 16 else cfg.facility.toNat) * 8
        + n : Nat) : Int) := by
    intro n
    split
    · rfl
    · omega
  have hdata : (if cfg.omitStructuredData then syslogNil else eventData e) = writeData
      (if cfg.omitStructuredData then [] else [(octets "snmplens@0", eventParams e)]) := by
    cases cfg.omitStructuredData with
    | true => rfl
    | false => exact eventData_eq e
  unfold formatRFC5424 Record.write syslogRecord
  dsimp only
  rw [hpri, formatInt_natCast, hdata, hopen, hversion, hspace]
  simp

theorem wellFormed_syslogRecord (h : SyslogHost) (cfg : SyslogConfig) (e : Event) (message : Octets) :
    (syslogRecord h cfg e message).WellFormed := by
  have hfacility : (if cfg.facility < 0 ∨ 23 < cfg.facility then 16 else cfg.facility.toNat) ≤ 23 := by
    split
    · decide
    · omega
  have hseverity : ∀ n, syslogSeverity n ≤ 6 := by
    intro n
    unfold syslogSeverity
    split <;> decide
  have hnames : ∀ name, name ∈ ["snmplens@0", "id", "category", "severity", "state", "source", "oid"] →
      IsRun isName 32 (octets name) := by
    intro name hn
    have hall : ∀ name,
        name ∈ ["snmplens@0", "id", "category", "severity", "state", "source", "oid"] →
        (octets name).all isName = true ∧ octets name ≠ [] ∧ (octets name).length ≤ 32 := by
      decide
    obtain ⟨hrun, hne, hshort⟩ := hall name hn
    exact ⟨List.all_eq_true.mp hrun, hne, hshort⟩
  refine ⟨?_, ⟨Nat.one_pos, (by decide : 1 < 1000)⟩, isRun_format _, isRun_sanitizePrint (by decide) _,
    isRun_sanitizePrint (by decide) _, isRun_syslogNil (by decide), isRun_sanitizePrint (by decide) _, ?_⟩
  · have hpri := hseverity (Notify.parseSeverity (text e.severity))
    simp only [syslogRecord]
    omega
  · intro el hel
    simp only [syslogRecord] at hel
    split at hel
    · cases hel
    · rw [List.mem_singleton.mp hel]
      refine ⟨hnames "snmplens@0" (by simp), ?_⟩
      intro q hq
      simp only [eventParams, List.mem_append, List.mem_cons, List.not_mem_nil, or_false] at hq
      rcases hq with ((rfl | rfl | rfl | rfl) | hq) | hq
      · exact hnames "id" (by simp)
      · exact hnames "category" (by simp)
      · exact hnames "severity" (by simp)
      · exact hnames "state" (by simp)
      · split at hq
        · rw [List.mem_singleton.mp hq]
          exact hnames "source" (by simp)
        · cases hq
      · split at hq
        · rw [List.mem_singleton.mp hq]
          exact hnames "oid" (by simp)
        · cases hq

/-! ## Control characters -/

/-- A C0 control other than TAB, or DEL. -/
def isControl (b : UInt8) : Bool := needsBodyEscape b.toNat

def Clean (s : Octets) : Prop := ∀ b ∈ s, isControl b = false

theorem clean_encodeRune {r : Nat} (hr : needsBodyEscape r = false) : Clean (encodeRune r) := by
  intro b hb
  unfold encodeRune at hb
  rcases mem_utf8EncodeChar hb with ⟨hlt, rfl⟩ | hhigh
  · unfold isControl
    rw [toNat_chr hlt]
    split at hlt
    · rename_i hvalid
      rw [if_pos hvalid, toNat_of_isValidChar hvalid]
      exact hr
    · exact absurd hlt (by decide)
  · unfold isControl needsBodyEscape
    simp
    omega

theorem not_isControl_of_high {b : UInt8} (h : 128 ≤ b.toNat) : isControl b = false := by
  unfold isControl needsBodyEscape
  simp
  omega

theorem clean_sanitizeBody (s : Octets) : Clean (sanitizeBody s) := by
  unfold sanitizeBody
  split
  · rename_i hno
    rw [Bool.not_eq_true', List.any_eq_false] at hno
    intro b hb
    by_cases hlt : b.toNat < 128
    · have hplain := hno _ (Fold.mem_scalars (Nat.le_refl _) hb hlt)
      rwa [Bool.not_eq_true] at hplain
    · exact not_isControl_of_high (Nat.le_of_not_lt hlt)
  · intro b hb
    obtain ⟨r, -, hr⟩ := List.mem_flatMap.mp hb
    have hwords : ∀ word, word ∈ ["\\n", "\\r", "\\0", "\\x"] → ∀ b ∈ octets word,
        isControl b = false := by
      decide
    unfold escapeRune at hr
    split at hr
    · exact hwords "\\n" (by simp) b hr
    · split at hr
      · exact hwords "\\r" (by simp) b hr
      · split at hr
        · exact hwords "\\0" (by simp) b hr
        · split at hr
          · rcases List.mem_append.mp hr with hr | hr
            · exact hwords "\\x" (by simp) b hr
            · have hdigit := Hex.mem_encode hr
              unfold isControl needsBodyEscape
              simp
              omega
          · rename_i hno
            rw [Bool.not_eq_true] at hno
            exact clean_encodeRune hno b hr

theorem clean_append {s t : Octets} (hs : Clean s) (ht : Clean t) : Clean (s ++ t) := by
  intro b hb
  rcases List.mem_append.mp hb with hb | hb
  · exact hs b hb
  · exact ht b hb

theorem clean_of_isPrint {s : Octets} (h : ∀ b ∈ s, isPrint b = true) : Clean s := by
  intro b hb
  have hprint := h b hb
  simp only [isPrint, UInt8.le_iff_toNat_le, Bool.and_eq_true, decide_eq_true_eq] at hprint
  have hlow : 33 ≤ b.toNat := hprint.1
  have hhigh : b.toNat ≤ 126 := hprint.2
  unfold isControl needsBodyEscape
  simp
  omega

theorem clean_escape {v : Octets} (h : Clean v) : Clean (escape v) := by
  intro b hb
  obtain ⟨c, hc, hin⟩ := List.mem_flatMap.mp hb
  split at hin
  · rcases List.mem_cons.mp hin with rfl | hin
    · decide
    · rw [List.mem_singleton.mp hin]
      exact h c hc
  · rw [List.mem_singleton.mp hin]
    exact h c hc

theorem clean_eventData (e : Event) : Clean (eventData e) := by
  have hwords : ∀ word, word ∈ ["[snmplens@0 id=\"", "\" category=\"", "\" severity=\"", "\" state=\"",
      "\"", " source=\"", " oid=\"", "]"] → ∀ b ∈ octets word, isControl b = false := by
    decide
  have hesc : ∀ v, Clean (esc v) := by
    intro v
    rw [esc_eq]
    exact clean_escape (clean_sanitizeBody v)
  have hquote : Clean (octets "\"") := hwords _ (by simp)
  unfold eventData
  refine clean_append (clean_append (clean_append ?_ ?_) ?_) (hwords _ (by simp))
  · refine clean_append (clean_append (clean_append (clean_append (clean_append (clean_append
      (clean_append (clean_append ?_ (hesc _)) ?_) (hesc _)) ?_) (hesc _)) ?_) (hesc _)) hquote
    all_goals exact hwords _ (by simp)
  · split
    · exact clean_append (clean_append (hwords _ (by simp)) (hesc _)) hquote
    · exact fun b hb => absurd hb List.not_mem_nil
  · split
    · exact clean_append (clean_append (hwords _ (by simp)) (hesc _)) hquote
    · exact fun b hb => absurd hb List.not_mem_nil

/-- **No record has a control character in it** but TAB. -/
theorem clean_formatRFC5424 (h : SyslogHost) (cfg : SyslogConfig) (e : Event) (message : Octets) :
    Clean (formatRFC5424 h cfg e message) := by
  have hwords : ∀ word, word ∈ ["<", ">1 ", " "] → ∀ b ∈ octets word, isControl b = false := by decide
  have hspace : Clean (octets " ") := hwords _ (by simp)
  have hfield : ∀ s max, 0 < max → Clean (sanitizePrintUSASCII s max) := fun s max hmax =>
    clean_of_isPrint (isRun_sanitizePrint hmax s).all
  have hnil : Clean syslogNil := by
    unfold Clean
    decide
  have hbom : Clean utf8BOM := by
    unfold Clean
    decide
  have hdigits : ∀ n, Clean (Strings.formatUint n) := fun n =>
    clean_of_isPrint fun b hb => isPrint_of_isDigit (Strings.isDigit_of_mem hb)
  have hint : ∀ n, Clean (formatInt n) := by
    intro n
    unfold formatInt
    split
    · exact clean_append (s := [chr '-']) (by unfold Clean; decide) (hdigits _)
    · exact hdigits _
  have hdata : Clean (if cfg.omitStructuredData then syslogNil else eventData e) := by
    split
    · exact hnil
    · exact clean_eventData e
  unfold formatRFC5424
  dsimp only
  refine clean_append (clean_append (clean_append (clean_append ?_ hspace) hdata)
    (clean_append hspace hbom)) (clean_sanitizeBody _)
  refine clean_append (clean_append (clean_append (clean_append (clean_append (clean_append ?_ hspace)
    (hfield _ 48 (by decide))) hspace) hnil) hspace) (hfield _ 32 (by decide))
  refine clean_append (clean_append (clean_append (clean_append (clean_append (hwords _ (by simp))
    (hint _)) (hwords _ (by simp))) ?_) hspace) (hfield _ 255 (by decide))
  exact clean_of_isPrint (isRun_format _).all

theorem isText_escapeRune (c : Char) : IsText (escapeRune c.toNat) := by
  unfold escapeRune
  split
  · exact isText_octets _
  · split
    · exact isText_octets _
    · split
      · exact isText_octets _
      · split
        · refine (isText_octets _).append (isText_ascii fun b hb => ?_)
          have hdigit := Hex.mem_encode hb
          omega
        · rw [encodeRune_toNat]
          exact ⟨[c], by simp⟩

theorem isText_sanitizeBody {s : Octets} (h : IsText s) : IsText (sanitizeBody s) := by
  obtain ⟨l, rfl⟩ := h
  have hescaped : IsText ((l.map Char.toNat).flatMap escapeRune) := by
    induction l with
    | nil => exact ⟨[], rfl⟩
    | cons c l ih =>
        rw [List.map_cons, List.flatMap_cons]
        exact (isText_escapeRune c).append ih
  unfold sanitizeBody
  split
  · exact ⟨l, rfl⟩
  · rwa [Fold.scalars_text (Nat.le_refl _)]

/--
**A record cannot be forged by what it says.**

The octets are free of control characters but TAB, and read by the grammar they are the record
the program meant: seven fields, one element with the event's parameters or none, each of them
its text with the controls spelled out, and the message. The values are UTF-8 where the texts are.
-/
theorem formatRFC5424_reads (h : SyslogHost) (cfg : SyslogConfig) (e : Event) (message : Octets) :
    (∀ b ∈ formatRFC5424 h cfg e message, isControl b = false) ∧
      read (formatRFC5424 h cfg e message) = some (syslogRecord h cfg e message) ∧
      ((∀ v ∈ [e.id, e.category, e.severity, e.state, e.source, e.oid], IsText v) →
        ∀ p ∈ eventParams e, IsText p.2) := by
  refine ⟨clean_formatRFC5424 h cfg e message, ?_, ?_⟩
  · rw [formatRFC5424_eq]
    exact read_write (wellFormed_syslogRecord h cfg e message)
  · intro htexts p hp
    simp only [eventParams, List.mem_append, List.mem_cons, List.not_mem_nil, or_false] at hp
    rcases hp with ((rfl | rfl | rfl | rfl) | hp) | hp
    · exact isText_sanitizeBody (htexts _ (by simp))
    · exact isText_sanitizeBody (htexts _ (by simp))
    · exact isText_sanitizeBody (htexts _ (by simp))
    · exact isText_sanitizeBody (htexts _ (by simp))
    · split at hp
      · rw [List.mem_singleton.mp hp]
        exact isText_sanitizeBody (htexts _ (by simp))
      · cases hp
    · split at hp
      · rw [List.mem_singleton.mp hp]
        exact isText_sanitizeBody (htexts _ (by simp))
      · cases hp

end SnmpLens.Render
