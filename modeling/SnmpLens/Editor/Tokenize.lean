import SnmpLens.Lib.Html

/-!
# The tokeniser

`frontend/src/mibeditor/tokenize.js`. A line is turned into markup token by token (`step`), and all
that one line hands to the next is whether a string is open. `stringStateAt` finds that out by a scan
of its own, which knows strings and comments but no words. Both are readings of the text unit by unit
(`Reading`): with words for the one, without for the other.
-/

namespace SnmpLens.MibEditor

open Utf16 Html

/-! ## Words -/

def macros : List String :=
  ["MODULE-IDENTITY", "OBJECT-IDENTITY", "OBJECT-TYPE", "NOTIFICATION-TYPE", "TEXTUAL-CONVENTION",
    "OBJECT-GROUP", "NOTIFICATION-GROUP", "MODULE-COMPLIANCE", "AGENT-CAPABILITIES", "TRAP-TYPE"]

def clauses : List String :=
  ["DEFINITIONS", "BEGIN", "END", "IMPORTS", "EXPORTS", "FROM", "SYNTAX", "UNITS", "MAX-ACCESS",
    "ACCESS", "MIN-ACCESS", "STATUS", "DESCRIPTION", "REFERENCE", "INDEX", "AUGMENTS", "IMPLIED",
    "DEFVAL", "LAST-UPDATED", "ORGANIZATION", "CONTACT-INFO", "REVISION", "OBJECTS", "NOTIFICATIONS",
    "OBJECT", "MODULE", "MANDATORY-GROUPS", "GROUP", "WRITE-SYNTAX", "PRODUCT-RELEASE", "SUPPORTS",
    "VARIABLES", "IDENTIFIER", "SEQUENCE", "OF", "CHOICE", "SIZE"]

def types : List String :=
  ["INTEGER", "Integer32", "Unsigned32", "Counter32", "Counter64", "Gauge32", "TimeTicks", "OCTET",
    "STRING", "OBJECT", "NULL", "BITS", "IpAddress", "Opaque", "DisplayString", "TruthValue",
    "RowStatus", "PhysAddress", "MacAddress", "TimeStamp", "TimeInterval", "DateAndTime",
    "AutonomousType", "TestAndIncr", "RowPointer", "StorageType", "TDomain", "TAddress"]

def values : List String :=
  ["read-only", "read-write", "read-create", "not-accessible", "accessible-for-notify", "write-only",
    "current", "deprecated", "obsolete", "mandatory", "optional", "true", "false"]

inductive Token where
  | str | com | mac | kw | ty | val | num | op | pun
deriving DecidableEq, Repr

def Token.cls : Token → String
  | .str => "str"
  | .com => "com"
  | .mac => "mac"
  | .kw => "kw"
  | .ty => "ty"
  | .val => "val"
  | .num => "num"
  | .op => "op"
  | .pun => "pun"

def quote : UInt16 := unit '"'
def dash : UInt16 := unit '-'
def newline : UInt16 := unit '\n'

def digit (c : UInt16) : Bool := unit '0' ≤ c && c ≤ unit '9'

/-- `[A-Za-z0-9]`. -/
def wordStart (c : UInt16) : Bool :=
  unit 'A' ≤ c && c ≤ unit 'Z' || unit 'a' ≤ c && c ≤ unit 'z' || digit c

/-- `[A-Za-z0-9_-]`. -/
def wordChar (c : UInt16) : Bool := wordStart c || c == unit '_' || c == dash

/-- `classifyWord`, of a word that is not empty. -/
def classifyWord (word : Units) : Option Token :=
  if word ∈ macros.map units then some .mac
  else if word ∈ clauses.map units then some .kw
  else if word ∈ types.map units then some .ty
  else if word ∈ values.map units then some .val
  else if word.all digit then some .num
  else none

/-! ## One line -/

def openTag (k : Token) : Units := units "<span class=\"" ++ units k.cls ++ units "\">"

def span (k : Token) (body : Units) : Units := openTag k ++ body ++ units "</span>"

/-- What one round of the loop appends, how far it goes, and whether a string is open then. -/
structure Step where
  markup : Units
  length : Nat
  inString : Bool
deriving DecidableEq, Repr

/-- One round of the loop over a line, from its next unit on. -/
def step (inString : Bool) (ch : UInt16) (rest : Units) : Step :=
  let line := ch :: rest
  if inString then
    match indexFrom [quote] 0 line with
    | none => ⟨span .str (escapeHtml line), line.length, true⟩
    | some fin => ⟨span .str (escapeHtml (line.take (fin + 1))), fin + 1, false⟩
  else if ch = quote then ⟨span .str (units "&quot;"), 1, true⟩
  else if ch = dash ∧ rest.head? = some dash then
    let length := match indexFrom [dash, dash] 0 rest.tail with
      | none => line.length
      | some close => close + 4
    ⟨span .com (escapeHtml (line.take length)), length, false⟩
  else if wordStart ch then
    let word := line.takeWhile wordChar
    match classifyWord word with
    | some k => ⟨span k (escapeHtml word), word.length, false⟩
    | none => ⟨escapeHtml word, word.length, false⟩
  else if ch = unit ':' ∧ line.take 3 = units "::=" then ⟨span .op (units "::="), 3, false⟩
  else if ch ∈ units "{}(),;|" then ⟨span .pun (escapeHtml [ch]), 1, false⟩
  else ⟨escapeHtml [ch], 1, false⟩

def scanLine : Nat → Bool → Units → Units × Bool
  | fuel + 1, inString, ch :: rest =>
      let st := step inString ch rest
      let more := scanLine fuel st.inString ((ch :: rest).drop st.length)
      (st.markup ++ more.1, more.2)
  | _, inString, _ => ([], inString)

/-- The markup of a line, and whether a string is open behind it. -/
def highlightLine (inString : Bool) (line : Units) : Units × Bool :=
  scanLine line.length inString line

/-- The markup of the lines of a text. -/
def highlightLines : Bool → List Units → List Units
  | _, [] => []
  | inString, line :: rest =>
      let painted := highlightLine inString line
      painted.1 :: highlightLines painted.2 rest

def highlight (text : Units) (startInString : Bool) : Units :=
  [newline].intercalate (highlightLines startInString (text.splitOn newline))

/-! ## Whether a string is open -/

/-- The inner loop of `stringStateAt`: how far a comment goes on behind its first `--`. -/
def commentRest : Units → Nat
  | [] => 0
  | c :: rest =>
      if c = newline then 0
      else if c = dash ∧ rest.head? = some dash then 2
      else commentRest rest + 1

/-- Its loop over what is left of the text, `left` units of which are asked about. -/
def stringLoop : Nat → Nat → Bool → Units → Bool
  | fuel + 1, left + 1, inString, ch :: rest =>
      if inString then stringLoop fuel left (decide (ch ≠ quote)) rest
      else if ch = quote then stringLoop fuel left true rest
      else if ch = dash ∧ rest.head? = some dash then
        let n := commentRest rest.tail
        stringLoop fuel (left - 1 - n) false (rest.tail.drop n)
      else stringLoop fuel left false rest
  | _, _, inString, _ => inString

def stringStateAt (text : Units) (index : Nat) : Bool :=
  let upto := min index text.length
  stringLoop upto upto false text

/-! ## Reading unit by unit -/

/-- Where a reader is: behind one hyphen, in a word, in a string, in a comment or behind one hyphen
of it. -/
inductive Reading where
  | plain | hyphen | word | str | comment | commentHyphen
deriving DecidableEq, Repr

namespace Reading

def outside (words : Bool) (c : UInt16) : Reading :=
  if c = quote then .str
  else if c = dash then .hyphen
  else if words && wordStart c then .word
  else .plain

/-- The next unit; a reader that knows words has no comment inside of one. -/
def next (words : Bool) : Reading → UInt16 → Reading
  | .plain, c => outside words c
  | .hyphen, c => if c = dash then .comment else outside words c
  | .word, c => if wordChar c then .word else outside words c
  | .str, c => if c = quote then .plain else .str
  | .comment, c =>
      if c = newline then .plain else if c = dash then .commentHyphen else .comment
  | .commentHyphen, c => if c = newline ∨ c = dash then .plain else .comment

def read (words : Bool) (r : Reading) (s : Units) : Reading := s.foldl (next words) r

def inString (r : Reading) : Bool := decide (r = .str)

/-- The reader between two tokens. -/
def between (inString : Bool) : Reading := if inString then .str else .plain

variable {words : Bool} {c : UInt16} {s t : Units}

theorem read_cons (r : Reading) (c : UInt16) (s : Units) :
    read words r (c :: s) = read words (next words r c) s := rfl

theorem read_append (r : Reading) (s t : Units) :
    read words r (s ++ t) = read words (read words r s) t := List.foldl_append

theorem inString_between (b : Bool) : (between b).inString = b := by
  cases b <;> rfl

theorem read_hyphen (h : s.head? ≠ some dash) :
    (read words .hyphen s).inString = (read words .plain s).inString := by
  cases s with
  | nil => rfl
  | cons c s =>
      have hc : c ≠ dash := fun heq => h (congrArg some heq)
      have hnext : next words .hyphen c = next words .plain c := if_neg hc
      rw [read_cons, read_cons, hnext]

theorem read_commentHyphen (h : s.head? ≠ some dash) :
    (read words .commentHyphen s).inString = (read words .comment s).inString := by
  cases s with
  | nil => rfl
  | cons c s =>
      have hc : c ≠ dash := fun heq => h (congrArg some heq)
      have hnext : next words .commentHyphen c = next words .comment c := by
        unfold next
        dsimp only
        rw [if_neg hc]
        by_cases hnl : c = newline
        · rw [if_pos (.inl hnl), if_pos hnl]
        · rw [if_neg (not_or.mpr ⟨hnl, hc⟩), if_neg hnl]
      rw [read_cons, read_cons, hnext]

theorem head_take (h : s.head? ≠ some dash) (k : Nat) : (s.take k).head? ≠ some dash := by
  cases k with
  | zero => exact fun hnone => by cases hnone
  | succ k =>
      cases s with
      | nil => exact h
      | cons c s => exact h

theorem read_skip (hquote : c ≠ quote) (hdash : ¬(c = dash ∧ s.head? = some dash))
    (hword : (words && wordStart c) = false) :
    (read words .plain (c :: s)).inString = (read words .plain s).inString := by
  rw [read_cons]
  unfold next outside
  dsimp only
  rw [if_neg hquote]
  split
  · rename_i hc
    exact read_hyphen fun hhead => hdash ⟨hc, hhead⟩
  · rw [hword]
    rfl

/-- **A comment is read as far as it goes, and then as if there were none.** -/
theorem read_comment (s : Units) (k : Nat) : (read words .comment (s.take k)).inString =
    (read words .plain ((s.drop (commentRest s)).take (k - commentRest s))).inString := by
  induction s generalizing k with
  | nil =>
      rw [List.take_nil, List.drop_nil, List.take_nil]
      rfl
  | cons c rest ih =>
      cases k with
      | zero =>
          rw [Nat.zero_sub, List.take_zero, List.take_zero]
          rfl
      | succ k =>
          unfold commentRest
          split
          · rename_i hnl
            have hnext : next words .plain newline = .plain := by cases words <;> rfl
            rw [hnl, List.drop_zero, Nat.sub_zero, List.take_succ_cons, read_cons, read_cons, hnext]
            rfl
          rename_i hnl
          split
          · rename_i hclose
            obtain ⟨rest, rfl⟩ := List.head?_eq_some_iff.mp hclose.2
            rw [hclose.1]
            cases k with
            | zero => rfl
            | succ k =>
                have hleft : k + 1 + 1 - 2 = k := by omega
                rw [hleft]
                rfl
          · rename_i hclose
            rw [List.take_succ_cons, read_cons, List.drop_succ_cons, Nat.add_sub_add_right, ← ih]
            unfold next
            dsimp only
            rw [if_neg hnl]
            split
            · rename_i hc
              exact read_commentHyphen (head_take (fun hhead => hclose ⟨hc, hhead⟩) k)
            · rfl

/-- **`stringStateAt` reads without words.** -/
theorem stringLoop_reads {fuel left : Nat} (h : left ≤ fuel) (b : Bool) (s : Units) :
    stringLoop fuel left b s = (read false (between b) (s.take left)).inString := by
  induction fuel generalizing left b s with
  | zero =>
      rw [Nat.le_zero.mp h, List.take_zero]
      exact (inString_between b).symm
  | succ fuel ih =>
      cases left with
      | zero =>
          rw [List.take_zero]
          exact (inString_between b).symm
      | succ left =>
          have hleft : left ≤ fuel := Nat.le_of_succ_le_succ h
          cases s with
          | nil =>
              rw [List.take_nil]
              exact (inString_between b).symm
          | cons c rest =>
              rw [List.take_succ_cons]
              unfold stringLoop
              cases b with
              | true =>
                  rw [if_pos rfl, ih hleft, read_cons]
                  by_cases hc : c = quote
                  · rw [hc]
                    rfl
                  · have hnext : next false (between true) c = .str := if_neg hc
                    rw [hnext, decide_eq_true hc]
                    rfl
              | false =>
                  rw [if_neg Bool.false_ne_true]
                  split
                  · rename_i hc
                    rw [ih hleft, hc]
                    rfl
                  rename_i hquote
                  split
                  · rename_i hopen
                    obtain ⟨rest, rfl⟩ := List.head?_eq_some_iff.mp hopen.2
                    dsimp only
                    rw [ih (by omega), List.tail_cons, hopen.1]
                    cases left with
                    | zero =>
                        rw [Nat.zero_sub, List.take_zero, List.take_zero]
                        rfl
                    | succ left => exact (read_comment rest left).symm
                  · rename_i hopen
                    rw [ih hleft]
                    refine (read_skip hquote ?_ rfl).symm
                    intro hboth
                    cases left with
                    | zero => cases hboth.2
                    | succ left =>
                        refine head_take (fun hhead => hopen ⟨hboth.1, hhead⟩) _ hboth.2

end Reading

theorem stringStateAt_reads (text : Units) (index : Nat) :
    stringStateAt text index = (Reading.read false .plain (text.take index)).inString := by
  unfold stringStateAt
  dsimp only
  rw [Reading.stringLoop_reads (Nat.le_refl _), ← List.take_take, List.take_length]
  rfl

/-! ## A line is read with words -/

namespace Reading

variable {s : Units} {m : Nat}

theorem read_str_none (h : indexFrom [quote] 0 s = none) (words : Bool) :
    read words .str s = .str := by
  have hnone : ∀ c ∈ s, c ≠ quote := by
    intro c hc heq
    obtain ⟨front, back, rfl⟩ := List.mem_iff_append.mp hc
    refine indexFrom_none h front.length ?_
    rw [List.drop_left, heq]
    exact List.prefix_append [quote] back
  clear h
  induction s with
  | nil => rfl
  | cons c s ih =>
      rw [List.forall_mem_cons] at hnone
      have hnext : next words .str c = .str := if_neg hnone.1
      rw [read_cons, hnext]
      exact ih hnone.2

theorem read_str_some {fin : Nat} (h : indexFrom [quote] 0 s = some fin) (words : Bool) :
    read words .str s = read words .plain (s.drop (fin + 1)) := by
  obtain ⟨k, hk, hprefix, hfirst⟩ := indexFrom_some h
  rw [Nat.zero_add] at hk
  subst hk
  clear h
  induction fin generalizing s with
  | zero =>
      obtain ⟨rest, rfl⟩ := hprefix
      rfl
  | succ fin ih =>
      cases s with
      | nil =>
          rw [List.drop_nil] at hprefix
          exact absurd (List.prefix_nil.mp hprefix) (List.cons_ne_nil _ _)
      | cons c s =>
          have hc : c ≠ quote := by
            intro heq
            refine hfirst 0 (Nat.succ_pos _) ?_
            rw [heq]
            exact List.prefix_append [quote] s
          have hnext : next words .str c = .str := if_neg hc
          rw [read_cons, hnext, List.drop_succ_cons]
          exact ih hprefix fun j hj => hfirst (j + 1) (Nat.succ_lt_succ hj)

theorem isPrefixOf_dashes (c : UInt16) (rest : Units) :
    [dash, dash].isPrefixOf (c :: rest) = true ↔ c = dash ∧ rest.head? = some dash := by
  rw [List.isPrefixOf_iff_prefix, List.cons_prefix_cons, eq_comm]
  refine and_congr_right fun _ => ?_
  cases rest with
  | nil =>
      constructor
      · intro h
        exact absurd (List.prefix_nil.mp h) (List.cons_ne_nil _ _)
      · intro h
        cases h
  | cons d rest =>
      rw [List.cons_prefix_cons, List.head?_cons, Option.some_inj, eq_comm]
      exact and_iff_left List.nil_prefix

theorem commentRest_eq (h : newline ∉ s) (i : Nat) : commentRest s =
    match indexFrom [dash, dash] i s with
    | none => s.length
    | some close => close - i + 2 := by
  induction s generalizing i with
  | nil => rfl
  | cons c rest ih =>
      rw [List.mem_cons, not_or] at h
      unfold commentRest indexFrom
      rw [if_neg (Ne.symm h.1)]
      by_cases hclose : c = dash ∧ rest.head? = some dash
      · rw [if_pos hclose, if_pos ((isPrefixOf_dashes c rest).mpr hclose)]
        exact (congrArg (· + 2) (Nat.sub_self i)).symm
      · rw [if_neg hclose, if_neg (mt (isPrefixOf_dashes c rest).mp hclose), ih h.2 (i + 1)]
        cases hindex : indexFrom [dash, dash] (i + 1) rest with
        | none => rfl
        | some close =>
            obtain ⟨k, hk, _⟩ := indexFrom_some hindex
            have hshift : close - (i + 1) + 2 + 1 = close - i + 2 := by omega
            exact hshift

theorem read_word (s : Units) : (read true .word s).inString =
    (read true .plain (s.dropWhile wordChar)).inString := by
  induction s with
  | nil => rfl
  | cons c s ih =>
      rw [read_cons, List.dropWhile_cons]
      unfold next
      dsimp only
      split
      · rename_i hc
        exact ih
      · rw [read_cons]
        rfl

end Reading

/-! ## What a round of the loop does -/

section

open Reading

variable {b : Bool} {ch : UInt16} {rest : Units}

/-- What a round is, by the token it finds. -/
inductive Round (b : Bool) (ch : UInt16) (rest : Units) : Step → Prop
  | unclosed : b = true → indexFrom [quote] 0 (ch :: rest) = none →
      Round b ch rest ⟨span .str (escapeHtml (ch :: rest)), (ch :: rest).length, true⟩
  | closed {fin : Nat} : b = true → indexFrom [quote] 0 (ch :: rest) = some fin →
      Round b ch rest
        ⟨span .str (escapeHtml ((ch :: rest).take (fin + 1))), fin + 1, false⟩
  | opened : b = false → ch = quote → Round b ch rest ⟨span .str (units "&quot;"), 1, true⟩
  | comment : b = false → ch = dash → rest.head? = some dash → newline ∉ rest →
      Round b ch rest
        ⟨span .com (escapeHtml ((ch :: rest).take (commentRest rest.tail + 2))),
          commentRest rest.tail + 2, false⟩
  | word {k : Option Token} : b = false → wordStart ch = true → k ≠ some .str →
      Round b ch rest
        ⟨(k.elim id span) (escapeHtml ((ch :: rest).takeWhile wordChar)),
          ((ch :: rest).takeWhile wordChar).length, false⟩
  | define : b = false → (ch :: rest).take 3 = units "::=" →
      Round b ch rest ⟨span .op (units "::="), 3, false⟩
  | unit {k : Option Token} : b = false → ch ≠ quote → ¬(ch = dash ∧ rest.head? = some dash) →
      wordStart ch = false → k ≠ some .str →
      Round b ch rest ⟨(k.elim id span) (escapeHtml [ch]), 1, false⟩

theorem classifyWord_ne (word : Units) : classifyWord word ≠ some .str := by
  unfold classifyWord
  split
  · decide
  split
  · decide
  split
  · decide
  split
  · decide
  split
  · decide
  · decide

theorem step_round (h : newline ∉ ch :: rest) : Round b ch rest (step b ch rest) := by
  unfold step
  dsimp only
  split
  · rename_i hb
    cases hindex : indexFrom [quote] 0 (ch :: rest) with
    | none => exact .unclosed hb hindex
    | some fin => exact .closed hb hindex
  rename_i hb
  rw [Bool.not_eq_true] at hb
  split
  · rename_i hquote
    exact .opened hb hquote
  rename_i hquote
  split
  · rename_i hopen
    obtain ⟨rest, rfl⟩ := List.head?_eq_some_iff.mp hopen.2
    have hrest : newline ∉ rest := fun hmem =>
      h (List.mem_cons_of_mem _ (List.mem_cons_of_mem _ hmem))
    have hcomment := @Round.comment b ch (dash :: rest) hb hopen.1 hopen.2
      fun hmem => h (List.mem_cons_of_mem _ hmem)
    rw [List.tail_cons, commentRest_eq hrest 0] at hcomment
    rw [List.tail_cons]
    cases hindex : indexFrom [dash, dash] 0 rest with
    | none =>
        rw [hindex] at hcomment
        exact hcomment
    | some close =>
        rw [hindex] at hcomment
        exact hcomment
  rename_i hopen
  split
  · rename_i hword
    have hround := fun k => @Round.word b ch rest k hb hword
    have hne := classifyWord_ne ((ch :: rest).takeWhile wordChar)
    cases hclass : classifyWord ((ch :: rest).takeWhile wordChar) with
    | none => exact hround none (fun hnone => by cases hnone)
    | some k =>
        rw [hclass] at hne
        exact hround (some k) hne
  rename_i hword
  rw [Bool.not_eq_true] at hword
  split
  · rename_i hdefine
    exact .define hb hdefine.2
  split
  · exact @Round.unit b ch rest (some .pun) hb hquote hopen hword (by decide)
  · exact @Round.unit b ch rest none hb hquote hopen hword (by decide)

variable {st : Step}

/-- **A round reads its token with words.** -/
theorem Round.reads (h : Round b ch rest st) :
    (read true (between b) (ch :: rest)).inString =
      (read true (between st.inString) ((ch :: rest).drop st.length)).inString := by
  cases h with
  | unclosed hb hindex =>
      rw [hb, List.drop_length]
      exact congrArg Reading.inString (read_str_none hindex true)
  | closed hb hindex =>
      rw [hb]
      exact congrArg Reading.inString (read_str_some hindex true)
  | opened hb hquote =>
      rw [hb, hquote]
      rfl
  | comment hb hdash hhead _ =>
      obtain ⟨rest, rfl⟩ := List.head?_eq_some_iff.mp hhead
      have hread := @read_comment true rest rest.length
      rw [List.take_length, List.take_of_length_le (by rw [List.length_drop])] at hread
      rw [hb, hdash]
      exact hread
  | word hb hword =>
      have hdrop := congrArg (List.drop ((ch :: rest).takeWhile wordChar).length)
        (@List.takeWhile_append_dropWhile _ wordChar (ch :: rest))
      rw [List.drop_left] at hdrop
      have hchar : wordChar ch = true := by
        unfold wordChar
        rw [hword]
        rfl
      have hstart : next true .plain ch = .word := by
        unfold next outside
        dsimp only
        rw [if_neg, if_neg, hword]
        · rfl
        · intro heq
          rw [heq] at hword
          cases hword
        · intro heq
          rw [heq] at hword
          cases hword
      rw [← hdrop, hb, List.dropWhile_cons_of_pos hchar, read_cons]
      change (read true (next true .plain ch) rest).inString = _
      rw [hstart]
      exact read_word rest
  | define hb hdefine =>
      have hsplit := List.take_append_drop 3 (ch :: rest)
      have hread : read true (between false) (units "::=") = .plain := by decide
      rw [hdefine] at hsplit
      have hall : read true (between false) (ch :: rest) =
          read true .plain ((ch :: rest).drop 3) := by
        rw [← hread, ← read_append, hsplit]
      rw [hb]
      exact congrArg Reading.inString hall
  | unit hb hquote hopen hword =>
      rw [hb]
      exact read_skip hquote hopen (by rw [hword]; rfl)

/-! ## What a round paints -/

theorem openTag_eq (k : Token) :
    ∃ name, openTag k = less :: (name ++ [greater]) ∧ greater ∉ name ∧ newline ∉ openTag k := by
  refine ⟨(openTag k).tail.dropLast, ?_⟩
  cases k <;> decide

theorem textContent_openTag (k : Token) (s : Units) : textContent (openTag k ++ s) = textContent s := by
  obtain ⟨name, htag, hname, _⟩ := openTag_eq k
  rw [htag, List.cons_append, List.append_assoc]
  exact textContent_tag hname s

theorem textContent_span (k : Token) {body word : Units}
    (h : ∀ s, textContent (body ++ s) = word ++ textContent s) (s : Units) :
    textContent (span k body ++ s) = word ++ textContent s := by
  have hclose : units "</span>" = less :: (units "/span" ++ [greater]) := by decide
  unfold span
  rw [List.append_assoc, List.append_assoc, textContent_openTag, h, hclose, List.cons_append,
    List.append_assoc]
  exact congrArg (word ++ ·) (textContent_tag (by decide) s)

/-- **What a round paints shows the token.** -/
theorem Round.content (h : Round b ch rest st) (s : Units) :
    textContent (st.markup ++ s) = (ch :: rest).take st.length ++ textContent s := by
  have hmaybe : ∀ (k : Option Token) (word : Units),
      textContent (k.elim id span (escapeHtml word) ++ s) = word ++ textContent s := by
    intro k word
    cases k with
    | none => exact textContent_escapeHtml word s
    | some k => exact textContent_span k (textContent_escapeHtml word) s
  cases h with
  | unclosed _ _ =>
      rw [List.take_length]
      exact textContent_span .str (textContent_escapeHtml _) s
  | closed _ _ => exact textContent_span .str (textContent_escapeHtml _) s
  | opened _ hquote =>
      rw [hquote]
      refine textContent_span .str (fun s => ?_) s
      exact textContent_entity (e := (units "&quot;", quote)) (by decide) s
  | comment _ _ _ _ => exact textContent_span .com (textContent_escapeHtml _) s
  | word _ _ _ =>
      have htake := congrArg (List.take ((ch :: rest).takeWhile wordChar).length)
        (@List.takeWhile_append_dropWhile _ wordChar (ch :: rest))
      rw [List.take_left] at htake
      rw [← htake]
      exact hmaybe _ _
  | define _ hdefine =>
      rw [hdefine]
      exact textContent_span .op (textContent_escapeHtml (units "::=")) s
  | unit _ _ _ _ _ => exact hmaybe _ [ch]

theorem newline_escapeHtml {s : Units} (h : newline ∉ s) : newline ∉ escapeHtml s :=
  fun hmem => h (mem_escapeHtml hmem (by decide))

theorem newline_span (k : Token) {body : Units} (h : newline ∉ body) : newline ∉ span k body := by
  obtain ⟨_, _, _, htag⟩ := openTag_eq k
  unfold span
  rw [List.mem_append, List.mem_append, not_or, not_or]
  exact ⟨⟨htag, h⟩, by decide⟩

theorem Round.on_line (h : Round b ch rest st) (hline : newline ∉ ch :: rest) :
    newline ∉ st.markup := by
  have hmaybe : ∀ (k : Option Token) (word : Units), newline ∉ word →
      newline ∉ k.elim id span (escapeHtml word) := by
    intro k word hword
    cases k with
    | none => exact newline_escapeHtml hword
    | some k => exact newline_span k (newline_escapeHtml hword)
  have htake : ∀ n, newline ∉ (ch :: rest).take n :=
    fun n hmem => hline (List.mem_of_mem_take hmem)
  cases h with
  | unclosed _ _ => exact newline_span .str (newline_escapeHtml hline)
  | closed _ _ => exact newline_span .str (newline_escapeHtml (htake _))
  | opened _ _ => exact newline_span .str (by decide)
  | comment _ _ _ _ => exact newline_span .com (newline_escapeHtml (htake _))
  | word _ _ _ => exact hmaybe _ _ fun hmem => hline ((List.takeWhile_sublist wordChar).subset hmem)
  | define _ _ => exact newline_span .op (by decide)
  | unit _ _ _ _ _ =>
      exact hmaybe _ [ch] fun hmem => hline (List.mem_singleton.mp hmem ▸ List.mem_cons_self)

theorem Round.length_pos (h : Round b ch rest st) : 0 < st.length := by
  cases h with
  | unclosed _ _ => exact Nat.succ_pos _
  | closed _ _ => exact Nat.succ_pos _
  | opened _ _ => exact Nat.one_pos
  | comment _ _ _ _ => exact Nat.succ_pos _
  | word _ hword _ =>
      have hchar : wordChar ch = true := by
        unfold wordChar
        rw [hword]
        rfl
      rw [List.takeWhile_cons_of_pos hchar]
      exact Nat.succ_pos _
  | define _ _ => exact Nat.succ_pos _
  | unit _ _ _ _ _ => exact Nat.one_pos

/-! ## A string that is open shows -/

theorem escapeUnit_head (c : UInt16) : ∃ d x, escapeUnit c = d :: x ∧ d ≠ less := by
  unfold escapeUnit
  split
  · exact ⟨ampersand, _, rfl, by decide⟩
  split
  · exact ⟨ampersand, _, rfl, by decide⟩
  rename_i hless
  split
  · exact ⟨ampersand, _, rfl, by decide⟩
  · exact ⟨c, [], rfl, hless⟩

/-- In a string a line begins with the token of one, and its first unit as it is. -/
theorem Round.of_string (h : Round true ch rest st) :
    ∃ x, st.markup = openTag .str ++ (escapeUnit ch ++ x) := by
  cases h with
  | unclosed _ _ =>
      refine ⟨escapeHtml rest ++ units "</span>", ?_⟩
      change openTag .str ++ (escapeUnit ch ++ escapeHtml rest) ++ _ = _
      rw [List.append_assoc, List.append_assoc]
  | @closed fin _ _ =>
      refine ⟨escapeHtml (rest.take fin) ++ units "</span>", ?_⟩
      change openTag .str ++ (escapeUnit ch ++ escapeHtml (rest.take fin)) ++ _ = _
      rw [List.append_assoc, List.append_assoc]
  | opened hb _ => cases hb
  | comment hb _ _ _ => cases hb
  | word hb _ _ => cases hb
  | define hb _ => cases hb
  | unit hb _ _ _ _ => cases hb

/-- Outside of a string it begins with another token, with a unit, or with a quote that opens one. -/
inductive Begins (ch : UInt16) : Units → Prop
  | quote (x : Units) : ch = quote → Begins ch (openTag .str ++ ampersand :: x)
  | token {k : Token} (x : Units) : k ≠ .str → Begins ch (openTag k ++ x)
  | unit {c : UInt16} (x : Units) : c ≠ less → Begins ch (c :: x)

theorem Round.of_plain (h : Round false ch rest st) (s : Units) :
    Begins ch (st.markup ++ s) := by
  have hspan : ∀ {k : Token} (body : Units), k ≠ .str → Begins ch (span k body ++ s) := by
    intro k body hk
    unfold span
    rw [List.append_assoc, List.append_assoc]
    exact .token _ hk
  have hmaybe : ∀ (k : Option Token) (more : Units), k ≠ some .str →
      Begins ch (k.elim id span (escapeHtml (ch :: more)) ++ s) := by
    intro k more hk
    cases k with
    | some k => exact hspan _ fun heq => hk (congrArg some heq)
    | none =>
        obtain ⟨d, x, hhead, hd⟩ := escapeUnit_head ch
        change Begins ch (escapeUnit ch ++ escapeHtml more ++ s)
        rw [hhead]
        exact .unit _ hd
  cases h with
  | unclosed hb _ => cases hb
  | closed hb _ => cases hb
  | opened _ hquote => exact .quote _ hquote
  | comment _ _ _ _ => exact hspan _ (by decide)
  | word _ hword hk =>
      have hchar : wordChar ch = true := by
        unfold wordChar
        rw [hword]
        rfl
      rw [List.takeWhile_cons_of_pos hchar]
      exact hmaybe _ _ hk
  | define _ _ => exact hspan _ (by decide)
  | unit _ _ _ _ hk => exact hmaybe _ [] hk

theorem Begins.ne_string {s x : Units} (h : Begins ch s) :
    s ≠ openTag .str ++ (escapeUnit ch ++ x) := by
  intro heq
  cases h with
  | quote y hquote =>
      rw [hquote] at heq
      have hunits := List.append_cancel_left heq
      exact absurd (List.cons.inj hunits).1 (by decide)
  | @token k y hk =>
      have hlong : ∀ k, 14 ≤ (openTag k).length := by
        intro k
        cases k <;> decide
      have htake := congrArg (List.take 14) heq
      rw [List.take_append_of_le_length (hlong k), List.take_append_of_le_length (hlong .str)] at htake
      revert hk htake
      cases k <;> decide
  | @unit c y hc =>
      have htag : openTag .str = less :: (openTag .str).tail := by decide
      rw [htag, List.cons_append] at heq
      exact hc (List.cons.inj heq).1

/-! ## What a line paints -/

/-- **The markup of a line shows the line, stays on it, and hands on what a reader that knows words
has open behind it.** -/
structure Painted (b : Bool) (line : Units) (painted : Units × Bool) : Prop where
  content : ∀ s, textContent (painted.1 ++ s) = line ++ textContent s
  on_line : newline ∉ painted.1
  state : painted.2 = (read true (between b) line).inString

theorem painted_scanLine {fuel : Nat} {b : Bool} {line : Units} (hline : newline ∉ line)
    (hfuel : line.length ≤ fuel) : Painted b line (scanLine fuel b line) := by
  induction fuel generalizing b line with
  | zero =>
      rw [List.length_eq_zero_iff.mp (Nat.le_zero.mp hfuel)]
      exact ⟨fun s => rfl, List.not_mem_nil, (inString_between b).symm⟩
  | succ fuel ih =>
      cases line with
      | nil => exact ⟨fun s => rfl, List.not_mem_nil, (inString_between b).symm⟩
      | cons ch rest =>
          have hround := @step_round b ch rest hline
          have hpos := hround.length_pos
          have hmore := @ih (step b ch rest).inString ((ch :: rest).drop (step b ch rest).length)
            (fun hmem => hline (List.mem_of_mem_drop hmem)) (by
              rw [List.length_drop]
              omega)
          unfold scanLine
          refine ⟨?_, ?_, ?_⟩
          · intro s
            dsimp only
            rw [List.append_assoc, hround.content, hmore.content, ← List.append_assoc,
              List.take_append_drop]
          · dsimp only
            rw [List.mem_append, not_or]
            exact ⟨hround.on_line hline, hmore.on_line⟩
          · exact hmore.state.trans hround.reads.symm

theorem painted_highlightLine {line : Units} (hline : newline ∉ line) (b : Bool) :
    Painted b line (highlightLine b line) := painted_scanLine hline (Nat.le_refl _)

/-- **Every line but an empty one shows whether it begins in a string.** -/
theorem highlightLine_ne {line : Units} (hline : newline ∉ line) (hne : line ≠ []) :
    (highlightLine true line).1 ≠ (highlightLine false line).1 := by
  obtain ⟨ch, rest, rfl⟩ := List.exists_cons_of_ne_nil hne
  unfold highlightLine
  rw [List.length_cons]
  unfold scanLine
  dsimp only
  obtain ⟨x, hstring⟩ := (@step_round true ch rest hline).of_string
  rw [hstring, List.append_assoc, List.append_assoc]
  exact ((@step_round false ch rest hline).of_plain _).ne_string.symm

end

end SnmpLens.MibEditor
