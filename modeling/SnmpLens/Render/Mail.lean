import SnmpLens.Lib.Rfc5322
import SnmpLens.Lib.Substring
import SnmpLens.Render.Syslog

/-!
# Mail messages

`buildMessage` of `pkg/notify/email.go`. An address and an event's id lose their line
breaks (`headerValue`), the recipients are folded here, the subject is encoded by Go's `mime`
and cut where that gets too long, and the body is put on CRLF. A reader of the message finds
the fixed fields, each once, and then the body (`buildMessage_reads`).

The Q-encoder is a parameter; what is asked of it is that it writes no CR and no LF. A date
is what the clock says, in local time.
-/

namespace SnmpLens.Render

open Utf8 Rfc5322

/-- What `buildMessage` reads of an `EmailConfig`. -/
structure EmailConfig where
  sender : Octets := []
  recipients : List Octets := []
  format : Octets := []
deriving DecidableEq, Repr

/-- A `time.Time` in its zone, to the second. -/
structure LocalTime where
  weekday : Fin 7
  day : Nat
  month : Fin 12
  year : Int
  hour : Nat
  minute : Nat
  second : Nat
  /-- West of Greenwich, and by how many minutes in either direction. -/
  west : Bool
  zone : Nat
deriving DecidableEq, Repr

/-- What building a message takes from elsewhere. -/
structure MailHost where
  /-- `mime.QEncoding.Encode("utf-8", s)`. -/
  qEncode : Octets → Octets
  now : LocalTime

/-! ## Values -/

def headerValue (s : Octets) : Octets := s.map fun b => if b = cr ∨ b = lf then chr ' ' else b

def softLimit : Nat := 78

/-- The loop of `foldAddressList`, at the `i`th recipient and so far into the line. -/
def foldLoop : Nat → Nat → List Octets → Octets
  | _, _, [] => []
  | i, width, addr :: addrs =>
      let addr := headerValue (Strings.trimSpace addr)
      if addr = [] then foldLoop (i + 1) width addrs
      else if 0 < i then
        let width := width + 1
        if softLimit < width + 1 + addr.length then
          chr ',' :: (crlf ++ chr ' ' :: addr) ++ foldLoop (i + 1) (1 + addr.length) addrs
        else chr ',' :: chr ' ' :: addr ++ foldLoop (i + 1) (width + 1 + addr.length) addrs
      else addr ++ foldLoop (i + 1) (width + addr.length) addrs

def foldAddressList (addrs : List Octets) : Octets := foldLoop 0 (octets "To: ").length addrs

def maxSubjectOctets : Nat := 900

/-- The search of `capEncodedSubject`, at most `fuel` steps of it. -/
def searchSubject (encoded : Nat → Octets) : Nat → Int → Int → Octets → Octets
  | 0, _, _, best => best
  | fuel + 1, lo, hi, best =>
      if hi < lo then best
      else
        let mid := (lo + hi) / 2
        let enc := encoded mid.toNat
        if enc.length ≤ maxSubjectOctets then searchSubject encoded fuel (mid + 1) hi enc
        else searchSubject encoded fuel lo (mid - 1) best

def capEncodedSubject (qEncode : Octets → Octets) (subject : Octets) : Octets :=
  let encoded := qEncode subject
  if encoded.length ≤ maxSubjectOctets then encoded
  else
    let runes := Fold.scalars subject.length subject
    let fits (n : Nat) : Octets := qEncode ((runes.take n).flatMap encodeRune ++ octets "…")
    searchSubject fits (runes.length + 2) 0 runes.length (fits 0)

def contentType (cfg : EmailConfig) : Octets :=
  if Fold.equalFold (Strings.trimSpace cfg.format) (octets "html") then octets "text/html"
  else octets "text/plain"

def weekdays : List Octets := ["Sun", "Mon", "Tue", "Wed", "Thu", "Fri", "Sat"].map octets

def months : List Octets :=
  ["Jan", "Feb", "Mar", "Apr", "May", "Jun", "Jul", "Aug", "Sep", "Oct", "Nov", "Dec"].map octets

/-- `Format(time.RFC1123Z)`. -/
def LocalTime.format (t : LocalTime) : Octets :=
  weekdays.getD t.weekday [] ++ octets ", " ++ zeroPad 2 t.day ++ octets " "
    ++ months.getD t.month [] ++ octets " "
    ++ (if t.year < 0 then [chr '-'] else []) ++ zeroPad 4 t.year.natAbs ++ octets " "
    ++ zeroPad 2 t.hour ++ octets ":" ++ zeroPad 2 t.minute ++ octets ":" ++ zeroPad 2 t.second
    ++ octets " " ++ octets (if t.west then "-" else "+")
    ++ zeroPad 2 (t.zone / 60) ++ zeroPad 2 (t.zone % 60)

def normaliseLines (body : Octets) : Octets :=
  let body := Substring.replaceAll crlf [lf] body
  let body := Substring.replaceAll [cr] [lf] body
  Substring.replaceAll [lf] crlf body

def buildMessage (h : MailHost) (cfg : EmailConfig) (e : Event) (subject body : Octets) : Octets :=
  let subject := if subject = [] then octets "[SnmpLens] " ++ e.summary else subject
  let body := if body = [] then e.summary else body
  octets "From: " ++ headerValue cfg.sender ++ crlf
    ++ (octets "To: " ++ foldAddressList cfg.recipients ++ crlf)
    ++ (octets "Subject: " ++ capEncodedSubject h.qEncode subject ++ crlf)
    ++ (octets "Date: " ++ h.now.format ++ crlf)
    ++ octets "MIME-Version: 1.0\r\n"
    ++ (octets "Content-Type: " ++ contentType cfg ++ octets "; charset=utf-8\r\n")
    ++ octets "Content-Transfer-Encoding: 8bit\r\n"
    ++ (if e.id ≠ [] then
        octets "Message-ID: <" ++ headerValue e.id ++ octets "@snmplens>\r\n"
          ++ (octets "X-SnmpLens-Event-Id: " ++ headerValue e.id ++ crlf)
      else [])
    ++ crlf ++ normaliseLines body ++ crlf

/-! ## What the message is meant to say -/

/-- The recipients on one line. -/
def addressList : Nat → List Octets → Octets
  | _, [] => []
  | i, addr :: addrs =>
      let addr := headerValue (Strings.trimSpace addr)
      if addr = [] then addressList (i + 1) addrs
      else (if 0 < i then octets ", " else []) ++ addr ++ addressList (i + 1) addrs

/-- The lines of a text, ended by CRLF, CR or LF. -/
def textLines : Octets → List Octets
  | [] => [[]]
  | b :: s =>
      if b = lf then [] :: textLines s
      else if b = cr then
        match s with
        | [] => [[], []]
        | c :: rest => if c = lf then [] :: textLines rest else [] :: textLines (c :: rest)
      else
        match textLines s with
        | [] => [[b]]
        | l :: ls => (b :: l) :: ls

/-- The names of the header fields, in order. -/
def headerNames (e : Event) : List Octets :=
  (["From", "To", "Subject", "Date", "MIME-Version", "Content-Type", "Content-Transfer-Encoding"]
    ++ if e.id ≠ [] then ["Message-ID", "X-SnmpLens-Event-Id"] else []).map octets

/-- The header, as a reader has it. -/
def mailHeader (h : MailHost) (cfg : EmailConfig) (e : Event) (subject : Octets) :
    List (Octets × Octets) :=
  let subject := if subject = [] then octets "[SnmpLens] " ++ e.summary else subject
  [(octets "From", chr ' ' :: headerValue cfg.sender),
    (octets "To", chr ' ' :: addressList 0 cfg.recipients),
    (octets "Subject", chr ' ' :: capEncodedSubject h.qEncode subject),
    (octets "Date", chr ' ' :: h.now.format),
    (octets "MIME-Version", octets " 1.0"),
    (octets "Content-Type", chr ' ' :: contentType cfg ++ octets "; charset=utf-8"),
    (octets "Content-Transfer-Encoding", octets " 8bit")]
    ++ if e.id ≠ [] then
        [(octets "Message-ID", octets " <" ++ headerValue e.id ++ octets "@snmplens>"),
          (octets "X-SnmpLens-Event-Id", chr ' ' :: headerValue e.id)]
      else []

/-! ## One line -/

theorem oneLine_headerValue (s : Octets) : OneLine (headerValue s) := by
  intro b hb
  obtain ⟨c, -, rfl⟩ := List.mem_map.mp hb
  split
  · decide
  · rename_i hc
    exact not_or.mp hc

theorem oneLine_octets {s : String} (h : (octets s).all (fun b => b != cr && b != lf) = true) :
    OneLine (octets s) := by
  intro b hb
  have hb' := List.all_eq_true.mp h b hb
  rw [Bool.and_eq_true, bne_iff_ne, bne_iff_ne] at hb'
  exact hb'

theorem oneLine_of_isPrint {s : Octets} (h : ∀ b ∈ s, Rfc5424.isPrint b = true) : OneLine s := by
  intro b hb
  have hp := h b hb
  constructor
  · rintro rfl
    cases hp
  · rintro rfl
    cases hp

/-- The lines of the recipients: a first one, and others that begin with a blank. -/
theorem foldLoop_eq (i width : Nat) (addrs : List Octets) :
    ∃ first folds, foldLoop i width addrs = first ++ writeFolds folds ∧ OneLine first ∧
      (∀ s ∈ folds, OneLine s ∧ s.head?.any isBlank = true) ∧
      first ++ folds.flatten = addressList i addrs := by
  induction addrs generalizing i width with
  | nil => exact ⟨[], [], rfl, oneLine_nil, fun s hs => absurd hs List.not_mem_nil, rfl⟩
  | cons addr addrs ih =>
      have hone := oneLine_headerValue (Strings.trimSpace addr)
      unfold foldLoop addressList
      dsimp only
      generalize headerValue (Strings.trimSpace addr) = a at hone
      by_cases hempty : a = []
      · rw [if_pos hempty, if_pos hempty]
        exact ih (i + 1) width
      · rw [if_neg hempty, if_neg hempty]
        have hcomma : ∀ s, OneLine s → OneLine (chr ',' :: s) := fun s hs =>
          OneLine.append (s := [chr ',']) (by unfold OneLine; decide) hs
        have hspace : ∀ s, OneLine s → OneLine (chr ' ' :: s) := fun s hs =>
          OneLine.append (s := [chr ' ']) (by unfold OneLine; decide) hs
        have hjoin : octets ", " = [chr ',', chr ' '] := by decide
        by_cases hi : 0 < i
        · rw [if_pos hi, if_pos hi, hjoin]
          split
          · obtain ⟨first, folds, heq, hfirst, hfolds, hlist⟩ := ih (i + 1) (1 + a.length)
            refine ⟨[chr ','], (chr ' ' :: a ++ first) :: folds, ?_, hcomma [] oneLine_nil, ?_, ?_⟩
            · rw [heq]
              simp [writeFolds]
            · intro s hs
              rcases List.mem_cons.mp hs with rfl | hs
              · exact ⟨(hspace a hone).append hfirst, rfl⟩
              · exact hfolds s hs
            · rw [← hlist]
              simp
          · obtain ⟨first, folds, heq, hfirst, hfolds, hlist⟩ :=
              ih (i + 1) (width + 1 + 1 + a.length)
            refine ⟨chr ',' :: chr ' ' :: a ++ first, folds, ?_, ?_, hfolds, ?_⟩
            · rw [heq]
              simp
            · exact (hcomma _ (hspace _ hone)).append hfirst
            · rw [← hlist]
              simp
        · rw [if_neg hi, if_neg hi]
          obtain ⟨first, folds, heq, hfirst, hfolds, hlist⟩ := ih (i + 1) (width + a.length)
          refine ⟨a ++ first, folds, ?_, hone.append hfirst, hfolds, ?_⟩
          · rw [heq, List.append_assoc]
          · rw [← hlist]
            simp

theorem searchSubject_encoded {encoded : Nat → Octets} {fuel : Nat} {lo hi : Int} {best : Octets}
    (hall : ∀ n, OneLine (encoded n)) (hbest : OneLine best) :
    OneLine (searchSubject encoded fuel lo hi best) := by
  induction fuel generalizing lo hi best with
  | zero => exact hbest
  | succ fuel ih =>
      unfold searchSubject
      split
      · exact hbest
      · dsimp only
        split
        · exact ih (hall _)
        · exact ih hbest

theorem oneLine_capEncodedSubject {qEncode : Octets → Octets} (hq : ∀ s, OneLine (qEncode s))
    (subject : Octets) : OneLine (capEncodedSubject qEncode subject) := by
  unfold capEncodedSubject
  dsimp only
  split
  · exact hq _
  · exact searchSubject_encoded (fun n => hq _) (hq _)

theorem oneLine_zeroPad (width n : Nat) : OneLine (zeroPad width n) :=
  oneLine_of_isPrint fun _ hb => isPrint_zeroPad hb

theorem oneLine_format (t : LocalTime) : OneLine t.format := by
  have hnames : (∀ i : Fin 7, OneLine (weekdays.getD i [])) ∧ ∀ i : Fin 12, OneLine (months.getD i []) := by
    unfold OneLine
    decide
  have hwords : ∀ word ∈ [", ", " ", ":", "-", "+"], OneLine (octets word) := by
    unfold OneLine
    decide
  have hspace := hwords " " (by simp)
  have hcolon := hwords ":" (by simp)
  have hsign : OneLine (if t.year < 0 then [chr '-'] else []) := by
    split
    · exact hwords "-" (by simp)
    · exact oneLine_nil
  have hwest : OneLine (octets (if t.west then "-" else "+")) := by
    split
    · exact hwords "-" (by simp)
    · exact hwords "+" (by simp)
  unfold LocalTime.format
  refine OneLine.append (OneLine.append (OneLine.append (OneLine.append ?_ hspace) hwest)
    (oneLine_zeroPad _ _)) (oneLine_zeroPad _ _)
  refine OneLine.append (OneLine.append (OneLine.append (OneLine.append (OneLine.append
    (OneLine.append ?_ hspace) (oneLine_zeroPad _ _)) hcolon) (oneLine_zeroPad _ _)) hcolon)
    (oneLine_zeroPad _ _)
  refine OneLine.append (OneLine.append (OneLine.append (OneLine.append ?_ (hnames.2 _)) hspace) hsign)
    (oneLine_zeroPad _ _)
  exact OneLine.append (OneLine.append (OneLine.append (hnames.1 _) (hwords ", " (by simp)))
    (oneLine_zeroPad _ _)) hspace

/-! ## The body -/

/-- A line break of any kind, once the pairs are one LF. -/
def lineEnd (b : UInt8) : Octets := if b = cr ∨ b = lf then crlf else [b]

theorem normaliseLines_eq (s : Octets) :
    normaliseLines s = (Substring.replaceAll crlf [lf] s).flatMap lineEnd := by
  unfold normaliseLines
  dsimp only
  rw [Substring.replaceAll_singleton, Substring.replaceAll_singleton, List.flatMap_assoc]
  refine List.flatMap_congr fun b _ => ?_
  unfold lineEnd
  by_cases hcr : b = cr
  · rw [if_pos hcr, if_pos (.inl hcr)]
    rfl
  · by_cases hlf : b = lf
    · rw [if_neg hcr, if_pos (.inr hlf), List.flatMap_singleton, if_pos hlf]
    · rw [if_neg hcr, if_neg (not_or.mpr ⟨hcr, hlf⟩), List.flatMap_singleton, if_neg hlf]

theorem normaliseLines_pair (s : Octets) :
    normaliseLines (cr :: lf :: s) = crlf ++ normaliseLines s := by
  rw [normaliseLines_eq, normaliseLines_eq]
  rfl

theorem normaliseLines_cons {b : UInt8} {s : Octets} (h : ¬ (b = cr ∧ s.head? = some lf)) :
    normaliseLines (b :: s) = lineEnd b ++ normaliseLines s := by
  rw [normaliseLines_eq, normaliseLines_eq]
  have hnot : ¬ crlf <+: b :: s := by
    intro hp
    obtain ⟨rest, hrest⟩ := hp
    obtain ⟨hb, hs⟩ := List.cons.inj hrest
    exact h ⟨hb.symm, by rw [← hs]; rfl⟩
  rw [Substring.replaceAll_cons hnot]
  rfl

theorem textLines_ne_nil (s : Octets) : textLines s ≠ [] := by
  unfold textLines
  split
  · simp
  · split
    · simp
    · split
      · split
        · simp
        · split <;> simp
      · split <;> simp

/-- **A body is its lines, each ended by CRLF.** -/
theorem normaliseLines_lines (s : Octets) :
    normaliseLines s ++ crlf = (textLines s).flatMap (· ++ crlf) := by
  induction hn : s.length using Nat.strong_induction_on generalizing s with
  | _ n ih =>
      cases s with
      | nil => rfl
      | cons b s =>
          have hbreak : lineEnd lf = crlf ∧ lineEnd cr = crlf := by decide
          have hrec : ∀ t : Octets, t.length < (b :: s).length →
              normaliseLines t ++ crlf = (textLines t).flatMap (· ++ crlf) :=
            fun t ht => ih t.length (hn ▸ ht) t rfl
          by_cases hlf : b = lf
          · have hstep : normaliseLines (b :: s) = crlf ++ normaliseLines s := by
              have hne : ¬ b = cr := fun h => absurd (hlf.symm.trans h) (by decide)
              rw [normaliseLines_cons fun h => hne h.1, hlf, hbreak.1]
            rw [hstep, List.append_assoc, hrec s (Nat.lt_succ_self _)]
            conv_rhs => unfold textLines
            rw [if_pos hlf]
            rfl
          · by_cases hcr : b = cr
            · subst hcr
              cases s with
              | nil => rfl
              | cons c rest =>
                  by_cases hc : c = lf
                  · -- a pair is one line break
                    rw [hc, normaliseLines_pair, List.append_assoc, hrec rest (by simp only [List.length_cons]; omega)]
                    conv_rhs => unfold textLines
                    rw [if_neg (by decide), if_pos rfl]
                    dsimp only
                    rw [if_pos rfl]
                    rfl
                  · have hstep : normaliseLines (cr :: c :: rest) = crlf ++ normaliseLines (c :: rest) := by
                      rw [normaliseLines_cons (by simp [hc]), hbreak.2]
                    rw [hstep, List.append_assoc, hrec (c :: rest) (Nat.lt_succ_self _)]
                    conv_rhs => unfold textLines
                    rw [if_neg (by decide), if_pos rfl]
                    dsimp only
                    rw [if_neg hc]
                    rfl
            · have hother : lineEnd b = [b] := if_neg (not_or.mpr ⟨hcr, hlf⟩)
              rw [normaliseLines_cons fun h => hcr h.1, hother, List.append_assoc,
                hrec s (Nat.lt_succ_self _)]
              conv_rhs => unfold textLines
              rw [if_neg hlf, if_neg hcr]
              obtain ⟨l, ls, hls⟩ := List.exists_cons_of_ne_nil (textLines_ne_nil s)
              rw [hls]
              rfl

/-! ## The message -/

/-- The header as it is written; the recipients may be folded. -/
def mailFields (h : MailHost) (cfg : EmailConfig) (e : Event) (subject first : Octets)
    (folds : List Octets) : List Field :=
  let subject := if subject = [] then octets "[SnmpLens] " ++ e.summary else subject
  [{ name := octets "From", value := chr ' ' :: headerValue cfg.sender },
    { name := octets "To", value := chr ' ' :: first, folds },
    { name := octets "Subject", value := chr ' ' :: capEncodedSubject h.qEncode subject },
    { name := octets "Date", value := chr ' ' :: h.now.format },
    { name := octets "MIME-Version", value := octets " 1.0" },
    { name := octets "Content-Type", value := chr ' ' :: contentType cfg ++ octets "; charset=utf-8" },
    { name := octets "Content-Transfer-Encoding", value := octets " 8bit" }]
    ++ if e.id ≠ [] then
        [{ name := octets "Message-ID", value := octets " <" ++ headerValue e.id ++ octets "@snmplens>" },
          { name := octets "X-SnmpLens-Event-Id", value := chr ' ' :: headerValue e.id }]
      else []

theorem buildMessage_eq (h : MailHost) (cfg : EmailConfig) (e : Event) (subject body first : Octets)
    (folds : List Octets) (hfold : foldAddressList cfg.recipients = first ++ writeFolds folds) :
    buildMessage h cfg e subject body = write (mailFields h cfg e subject first folds)
      (normaliseLines (if body = [] then e.summary else body) ++ crlf) := by
  have hfrom : octets "From: " = octets "From" ++ [chr ':', chr ' '] := by decide
  have hto : octets "To: " = octets "To" ++ [chr ':', chr ' '] := by decide
  have hsubject : octets "Subject: " = octets "Subject" ++ [chr ':', chr ' '] := by decide
  have hdate : octets "Date: " = octets "Date" ++ [chr ':', chr ' '] := by decide
  have hversion : octets "MIME-Version: 1.0\r\n"
      = octets "MIME-Version" ++ chr ':' :: octets " 1.0" ++ crlf := by decide
  have htype : octets "Content-Type: " = octets "Content-Type" ++ [chr ':', chr ' '] := by decide
  have hcharset : octets "; charset=utf-8\r\n" = octets "; charset=utf-8" ++ crlf := by decide
  have htransfer : octets "Content-Transfer-Encoding: 8bit\r\n"
      = octets "Content-Transfer-Encoding" ++ chr ':' :: octets " 8bit" ++ crlf := by decide
  have hmessage : octets "Message-ID: <" = octets "Message-ID" ++ chr ':' :: octets " <" := by decide
  have hhost : octets "@snmplens>\r\n" = octets "@snmplens>" ++ crlf := by decide
  have hevent : octets "X-SnmpLens-Event-Id: "
      = octets "X-SnmpLens-Event-Id" ++ [chr ':', chr ' '] := by decide
  unfold buildMessage mailFields
  dsimp only
  simp only [hfrom, hto, hsubject, hdate, hversion, htype, hcharset, htransfer, hmessage, hhost,
    hevent, hfold]
  by_cases hid : e.id = []
  · rw [if_neg (not_not.mpr hid), if_neg (not_not.mpr hid)]
    simp only [write, Field.write, writeFolds, List.flatMap_cons, List.flatMap_nil, List.append_assoc,
      List.cons_append, List.nil_append, List.append_nil]
  · rw [if_pos hid, if_pos hid]
    simp only [write, Field.write, writeFolds, List.flatMap_cons, List.flatMap_nil, List.append_assoc,
      List.cons_append, List.nil_append, List.append_nil]

theorem wellFormed_mailFields {h : MailHost} (hq : ∀ s, OneLine (h.qEncode s)) (cfg : EmailConfig)
    (e : Event) (subject : Octets) {first : Octets} {folds : List Octets} (hfirst : OneLine first)
    (hfolds : ∀ s ∈ folds, OneLine s ∧ s.head?.any isBlank = true) :
    ∀ f ∈ mailFields h cfg e subject first folds, f.WellFormed := by
  have hnames : ∀ name ∈ ["From", "To", "Subject", "Date", "MIME-Version", "Content-Type",
      "Content-Transfer-Encoding", "Message-ID", "X-SnmpLens-Event-Id"],
      octets name ≠ [] ∧ ∀ b ∈ octets name, isFtext b = true := by decide
  have hspace : ∀ s, OneLine s → OneLine (chr ' ' :: s) := fun s hs =>
    OneLine.append (s := [chr ' ']) (by unfold OneLine; decide) hs
  have hcontent : OneLine (contentType cfg) := by
    unfold contentType
    split
    · exact oneLine_octets (by decide)
    · exact oneLine_octets (by decide)
  have hsubject : OneLine (capEncodedSubject h.qEncode
      (if subject = [] then octets "[SnmpLens] " ++ e.summary else subject)) :=
    oneLine_capEncodedSubject hq _
  have hfixed : ∀ word ∈ [" 1.0", " 8bit", " <", "@snmplens>", "; charset=utf-8"],
      OneLine (octets word) := by
    unfold OneLine
    decide
  intro f hf
  unfold mailFields at hf
  dsimp only at hf
  rcases List.mem_append.mp hf with hf | hf
  · simp only [List.mem_cons, List.not_mem_nil, or_false] at hf
    rcases hf with rfl | rfl | rfl | rfl | rfl | rfl | rfl
    · exact .plain (hnames "From" (by simp)) (hspace _ (oneLine_headerValue _))
    · exact ⟨hnames "To" (by simp), hspace _ hfirst, hfolds⟩
    · exact .plain (hnames "Subject" (by simp)) (hspace _ hsubject)
    · exact .plain (hnames "Date" (by simp)) (hspace _ (oneLine_format _))
    · exact .plain (hnames "MIME-Version" (by simp)) (hfixed " 1.0" (by simp))
    · exact .plain (hnames "Content-Type" (by simp))
        ((hspace _ hcontent).append (hfixed "; charset=utf-8" (by simp)))
    · exact .plain (hnames "Content-Transfer-Encoding" (by simp)) (hfixed " 8bit" (by simp))
  · split at hf
    · simp only [List.mem_cons, List.not_mem_nil, or_false] at hf
      rcases hf with rfl | rfl
      · exact .plain (hnames "Message-ID" (by simp)) (((hfixed " <" (by simp)).append
          (oneLine_headerValue _)).append (hfixed "@snmplens>" (by simp)))
      · exact .plain (hnames "X-SnmpLens-Event-Id" (by simp)) (hspace _ (oneLine_headerValue _))
    · exact absurd hf List.not_mem_nil

/--
**What a mail says cannot add to its header.**

A reader finds the fixed fields, each once, with the values the program meant, and behind the
first empty line the body, every line of it ended by CRLF.
-/
theorem buildMessage_reads {h : MailHost} (hq : ∀ s, OneLine (h.qEncode s)) (cfg : EmailConfig)
    (e : Event) (subject body : Octets) :
    read (buildMessage h cfg e subject body) = some (mailHeader h cfg e subject,
        (textLines (if body = [] then e.summary else body)).flatMap (· ++ crlf)) ∧
      (mailHeader h cfg e subject).map Prod.fst = headerNames e ∧ (headerNames e).Nodup := by
  obtain ⟨first, folds, hfold, hfirst, hfolds, hlist⟩ :=
    foldLoop_eq 0 (octets "To: ").length cfg.recipients
  refine ⟨?_, ?_, ?_⟩
  · rw [buildMessage_eq h cfg e subject body first folds hfold,
      read_write (wellFormed_mailFields hq cfg e subject hfirst hfolds), normaliseLines_lines]
    have hmeant : (mailFields h cfg e subject first folds).map Field.meant
        = mailHeader h cfg e subject := by
      unfold mailFields mailHeader
      by_cases hid : e.id = []
      · simp [hid, Field.meant, hlist]
      · simp [hid, Field.meant, hlist]
    rw [hmeant]
  · unfold mailHeader headerNames
    by_cases hid : e.id = []
    · simp [hid]
    · simp [hid]
  · unfold headerNames
    split <;> decide

/-- The Q-encoding of a short text: plain text as it is, other text in one encoded word. -/
def shortQEncode (s : Octets) : Octets :=
  if s.all fun b => (chr ' ' ≤ b && b ≤ chr '~') || b == chr '\t' then s
  else
    octets "=?utf-8?q?"
      ++ (s.flatMap fun b =>
        if b = chr ' ' then [chr '_']
        else if chr '!' ≤ b ∧ b ≤ chr '~' ∧ b ≠ chr '=' ∧ b ≠ chr '?' ∧ b ≠ chr '_' then [b]
        else chr '=' :: (Hex.encode [b]).map fun d => if chr 'a' ≤ d then d - 32 else d)
      ++ octets "?="

theorem oneLine_shortQEncode (s : Octets) : OneLine (shortQEncode s) := by
  have hends : OneLine (octets "=?utf-8?q?") ∧ OneLine (octets "?=") := by
    unfold OneLine
    decide
  have hword : ∀ n : Fin 256, OneLine
      (if UInt8.ofNat n = chr ' ' then [chr '_']
        else if chr '!' ≤ UInt8.ofNat n ∧ UInt8.ofNat n ≤ chr '~' ∧ UInt8.ofNat n ≠ chr '='
          ∧ UInt8.ofNat n ≠ chr '?' ∧ UInt8.ofNat n ≠ chr '_' then [UInt8.ofNat n]
        else chr '=' :: (Hex.encode [UInt8.ofNat n]).map fun d => if chr 'a' ≤ d then d - 32 else d) := by
    unfold OneLine
    decide +kernel
  unfold shortQEncode
  split
  · rename_i hplain
    intro b hb
    have hprint := List.all_eq_true.mp hplain b hb
    constructor
    · rintro rfl
      cases hprint
    · rintro rfl
      cases hprint
  · refine (hends.1.append ?_).append hends.2
    intro b hb
    obtain ⟨c, -, hc⟩ := List.mem_flatMap.mp hb
    have hone := hword ⟨c.toNat, c.toNat_lt⟩
    rw [UInt8.ofNat_toNat] at hone
    exact hone b hc

/-- A subject that asks for a blind copy. -/
theorem buildMessage_reads_subject :
    let h : MailHost :=
      { qEncode := shortQEncode
        now := { weekday := 1, day := 27, month := 6, year := 2026, hour := 9, minute := 5, second := 0
                 west := false, zone := 120 } }
    let cfg : EmailConfig := { sender := octets "a@x", recipients := [octets "b@y", octets "c@z"] }
    let e : Event := { id := octets "42" }
    (∀ s, OneLine (h.qEncode s)) ∧
      read (buildMessage h cfg e (octets "down\r\nBcc: d@w") (octets "one\ntwo"))
        = some (mailHeader h cfg e (octets "down\r\nBcc: d@w"), octets "one\r\ntwo\r\n") := by
  intro h cfg e
  have hne : octets "one\ntwo" ≠ [] := by decide
  have hlines : (textLines (octets "one\ntwo")).flatMap (· ++ crlf) = octets "one\r\ntwo\r\n" := by
    decide +kernel
  generalize octets "down\r\nBcc: d@w" = subject
  generalize octets "one\ntwo" = body at hne hlines ⊢
  have hread := (buildMessage_reads (h := h) oneLine_shortQEncode cfg e subject body).1
  rw [if_neg hne, hlines] at hread
  exact ⟨oneLine_shortQEncode, hread⟩

end SnmpLens.Render
