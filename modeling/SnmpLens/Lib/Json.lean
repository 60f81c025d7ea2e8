import Mathlib.Data.List.DropRight
import SnmpLens.Lib.Strings

/-!
# JSON, as Go's `encoding/json` scans and writes it

A machine that reads one octet after the other, with a stack of what is open around it:
`valid` is `json.Valid`. What a string literal holds is a machine of its own inside it
(`strStep`), so that text which keeps that one inside the literal can stand in any literal
of any document. A string as the encoder writes it is such a text.

**What a document keeps.** Two texts that differ only in what stands inside of string
literals, there in nothing but text that keeps inside of them, are both valid JSON or
both not, also when blanks are taken off their ends.
-/

namespace Json

open Utf8 Strings

/-! ## The scanner -/

/-- Where the scanner is in a string literal. -/
inductive Str where
  /-- `stateInString`. -/
  | plain
  /-- `stateInStringEsc`. -/
  | esc
  /-- `stateInStringEscU` and the three behind it, by the digits that are owed but one. -/
  | escU (owed : Nat)
deriving DecidableEq, Repr

/-- `parseState`. -/
inductive Nest where
  | objectKey
  | objectValue
  | arrayValue
deriving DecidableEq, Repr

/-- `scanner.step`. -/
inductive State where
  | beginValue
  | beginValueOrEmpty
  | beginStringOrEmpty
  | beginString
  | endValue
  | endTop
  | str (q : Str)
  | neg
  | digits
  | zero
  | dot
  | dotDigits
  | e
  | eSign
  | eDigits
  | t
  | tr
  | tru
  | f
  | fa
  | fal
  | fals
  | n
  | nu
  | nul
deriving DecidableEq, Repr

def isSpace (c : UInt8) : Bool := c == chr ' ' || c == chr '\t' || c == chr '\r' || c == chr '\n'

def isDigit (c : UInt8) : Bool := chr '0' ≤ c && c ≤ chr '9'

def isHex (c : UInt8) : Bool :=
  isDigit c || (chr 'a' ≤ c && c ≤ chr 'f') || (chr 'A' ≤ c && c ≤ chr 'F')

def quote : UInt8 := chr '"'

/-- One more octet of a string literal that does not end it. -/
def strStep : Str → UInt8 → Option Str
  | .plain, c =>
      if c = quote then none
      else if c = chr '\\' then some .esc
      else if c < 0x20 then none
      else some .plain
  | .esc, c =>
      if c ∈ "bfnrt\\/\"".toList.map chr then some .plain
      else if c = chr 'u' then some (.escU 3)
      else none
  | .escU owed, c =>
      if isHex c then
        match owed with
        | 0 => some .plain
        | owed + 1 => some (.escU owed)
      else none

def maxNestingDepth : Nat := 10000

/-- `pushParseState`. -/
def push (top : Nest) (stack : List Nest) (next : State) : Option (State × List Nest) :=
  if stack.length + 1 ≤ maxNestingDepth then some (next, top :: stack) else none

/-- `popParseState`, of what is left of the stack. -/
def pop (stack : List Nest) : State × List Nest :=
  (if stack.isEmpty then .endTop else .endValue, stack)

/-- `stateEndValue`. -/
def endValue (stack : List Nest) (c : UInt8) : Option (State × List Nest) :=
  match stack with
  | [] => if isSpace c then some (.endTop, []) else none
  | top :: rest =>
      if isSpace c then some (.endValue, stack)
      else
        match top with
        | .objectKey => if c = chr ':' then some (.beginValue, .objectValue :: rest) else none
        | .objectValue =>
            if c = chr ',' then some (.beginString, .objectKey :: rest)
            else if c = chr '\x7d' then some (pop rest)
            else none
        | .arrayValue =>
            if c = chr ',' then some (.beginValue, stack)
            else if c = chr ']' then some (pop rest)
            else none

/-- `stateBeginValue`, of what is no blank. -/
def beginValue (stack : List Nest) (c : UInt8) : Option (State × List Nest) :=
  if c = chr '\x7b' then push .objectKey stack .beginStringOrEmpty
  else if c = chr '[' then push .arrayValue stack .beginValueOrEmpty
  else if c = quote then some (.str .plain, stack)
  else if c = chr '-' then some (.neg, stack)
  else if c = chr '0' then some (.zero, stack)
  else if c = chr 't' then some (.t, stack)
  else if c = chr 'f' then some (.f, stack)
  else if c = chr 'n' then some (.n, stack)
  else if isDigit c then some (.digits, stack)
  else none

/-- The only octet that is right next. -/
def owe (d : Char) (next : State) (stack : List Nest) (c : UInt8) : Option (State × List Nest) :=
  if c = chr d then some (next, stack) else none

/-- `stateESign`. -/
def eSign (stack : List Nest) (c : UInt8) : Option (State × List Nest) :=
  if isDigit c then some (.eDigits, stack) else none

/-- `state0`. -/
def zero (stack : List Nest) (c : UInt8) : Option (State × List Nest) :=
  if c = chr '.' then some (.dot, stack)
  else if c = chr 'e' ∨ c = chr 'E' then some (.e, stack)
  else endValue stack c

/-- One octet. -/
def step : State → List Nest → UInt8 → Option (State × List Nest)
  | .beginValue, stack, c => if isSpace c then some (.beginValue, stack) else beginValue stack c
  | .beginValueOrEmpty, stack, c =>
      if isSpace c then some (.beginValueOrEmpty, stack)
      else if c = chr ']' then endValue stack c
      else beginValue stack c
  | .beginStringOrEmpty, stack, c =>
      if isSpace c then some (.beginStringOrEmpty, stack)
      else if c = chr '\x7d' then endValue (.objectValue :: stack.drop 1) c
      else if c = quote then some (.str .plain, stack)
      else none
  | .beginString, stack, c =>
      if isSpace c then some (.beginString, stack)
      else if c = quote then some (.str .plain, stack)
      else none
  | .endValue, stack, c => endValue stack c
  | .endTop, stack, c => if isSpace c then some (.endTop, stack) else none
  | .str q, stack, c =>
      if q = .plain ∧ c = quote then some (.endValue, stack)
      else (strStep q c).map fun q => (.str q, stack)
  | .neg, stack, c =>
      if c = chr '0' then some (.zero, stack)
      else if isDigit c then some (.digits, stack)
      else none
  | .digits, stack, c => if isDigit c then some (.digits, stack) else zero stack c
  | .zero, stack, c => zero stack c
  | .dot, stack, c => if isDigit c then some (.dotDigits, stack) else none
  | .dotDigits, stack, c =>
      if isDigit c then some (.dotDigits, stack)
      else if c = chr 'e' ∨ c = chr 'E' then some (.e, stack)
      else endValue stack c
  | .e, stack, c =>
      if c = chr '+' ∨ c = chr '-' then some (.eSign, stack) else eSign stack c
  | .eSign, stack, c => eSign stack c
  | .eDigits, stack, c => if isDigit c then some (.eDigits, stack) else endValue stack c
  | .t, stack, c => owe 'r' .tr stack c
  | .tr, stack, c => owe 'u' .tru stack c
  | .tru, stack, c => owe 'e' .endValue stack c
  | .f, stack, c => owe 'a' .fa stack c
  | .fa, stack, c => owe 'l' .fal stack c
  | .fal, stack, c => owe 's' .fals stack c
  | .fals, stack, c => owe 'e' .endValue stack c
  | .n, stack, c => owe 'u' .nu stack c
  | .nu, stack, c => owe 'l' .nul stack c
  | .nul, stack, c => owe 'l' .endValue stack c

/-- The loop of `checkValid`. -/
def run : State → List Nest → Octets → Option (State × List Nest)
  | s, stack, [] => some (s, stack)
  | s, stack, c :: rest => (step s stack c).bind fun (s, stack) => run s stack rest

/-- `scanner.eof`. -/
def eof (s : State) (stack : List Nest) : Bool :=
  s = .endTop || ((step s stack (chr ' ')).map Prod.fst == some .endTop)

/-- `json.Valid`. -/
def valid (s : Octets) : Bool :=
  match run .beginValue [] s with
  | some (s, stack) => eof s stack
  | none => false

example : valid (octets "\x7b\"a\": [1.5e3, true, \x7b\x7d, \"\\u00e9\\n\"]\x7d") = true := by decide

example : valid (octets "\x7b\"a\": tr\x7d") = false := by decide

/-! ## Inside and outside of string literals -/

/-- Where some octets stand, if it is in a string literal. -/
def State.place : State → Option Str
  | .str q => some q
  | _ => none

/-- The same for any text, whatever else it is: behind one more octet. -/
def place : Option Str → UInt8 → Option Str
  | none, c => if c = quote then some .plain else none
  | some q, c => if q = .plain ∧ c = quote then none else some ((strStep q c).getD .plain)

/-- Behind some octets. -/
def places (q : Option Str) (s : Octets) : Option Str := s.foldl place q

/-- Text in a string literal that does not end it. -/
def strRun : Str → Octets → Option Str
  | q, [] => some q
  | q, c :: rest => (strStep q c).bind fun q => strRun q rest

variable {s s' : State} {stack stack' : List Nest} {c : UInt8} {q q' : Str}
  {text rest front back : Octets}

theorem run_append (s : State) (stack : List Nest) (front back : Octets) :
    run s stack (front ++ back) = (run s stack front).bind fun p => run p.1 p.2 back := by
  induction front generalizing s stack with
  | nil => rfl
  | cons c front ih =>
      rw [List.cons_append, run, run]
      cases step s stack c with
      | none => rfl
      | some p => exact ih p.1 p.2

theorem run_of_append (h : run s stack (front ++ back) = some (s', stack')) :
    ∃ m mstack, run s stack front = some (m, mstack) ∧ run m mstack back = some (s', stack') := by
  rw [run_append] at h
  obtain ⟨⟨m, mstack⟩, hfront, hback⟩ := Option.bind_eq_some_iff.mp h
  exact ⟨m, mstack, hfront, hback⟩

theorem strRun_append (q : Str) (front back : Octets) :
    strRun q (front ++ back) = (strRun q front).bind fun q => strRun q back := by
  induction front generalizing q with
  | nil => rfl
  | cons c front ih =>
      rw [List.cons_append, strRun, strRun]
      cases strStep q c with
      | none => rfl
      | some q => exact ih q

theorem not_quote_of_strStep (h : strStep q c = some q') : ¬ (q = .plain ∧ c = quote) := by
  rintro ⟨rfl, rfl⟩
  have hnone : strStep .plain quote = none := rfl
  rw [hnone] at h
  cases h

theorem run_str (h : strRun q text = some q') (stack : List Nest) :
    run (.str q) stack text = some (.str q', stack) := by
  induction text generalizing q with
  | nil =>
      obtain rfl := Option.some.inj h
      rfl
  | cons c text ih =>
      rw [strRun] at h
      obtain ⟨m, hm, hrest⟩ := Option.bind_eq_some_iff.mp h
      rw [run, step, if_neg (not_quote_of_strStep hm), hm]
      exact ih hrest

theorem isSpace_quote : isSpace quote = false := by decide

theorem endValue_quote (stack : List Nest) : endValue stack quote = none := by
  cases stack with
  | nil => rfl
  | cons top rest => cases top <;> rfl

theorem endValue_place (h : endValue stack c = some (s', stack')) : s'.place = none := by
  unfold endValue pop at h
  grind [State.place]

theorem beginValue_place (hc : c ≠ quote) (h : beginValue stack c = some (s', stack')) :
    s'.place = none := by
  unfold beginValue push at h
  grind [State.place]

theorem zero_place (h : zero stack c = some (s', stack')) : s'.place = none := by
  unfold zero at h
  grind [State.place, endValue_place]

theorem step_place (hs : s.place = none) (hc : c ≠ quote) (h : step s stack c = some (s', stack')) :
    s'.place = none := by
  cases s with
  | str q => exact absurd hs (by simp [State.place])
  | _ =>
      unfold step at h
      grind [State.place, endValue_place, beginValue_place, zero_place, eSign, owe]

theorem step_quote (hs : s.place = none) (h : step s stack quote = some (s', stack')) :
    s' = .str .plain := by
  have hcases : step s stack quote = none ∨ step s stack quote = some (.str .plain, stack) := by
    cases s with
    | str q => exact absurd hs (by simp [State.place])
    | beginValue => exact .inr rfl
    | beginValueOrEmpty => exact .inr rfl
    | beginStringOrEmpty => exact .inr rfl
    | beginString => exact .inr rfl
    | _ => exact .inl (by first | rfl | exact endValue_quote stack)
  rcases hcases with hnone | hsome
  · rw [hnone] at h
    cases h
  · rw [hsome] at h
    exact (congrArg Prod.fst (Option.some.inj h)).symm

/-- **The scanner knows where it is.** -/
theorem place_step (h : step s stack c = some (s', stack')) : s'.place = place s.place c := by
  cases hs : s.place with
  | none =>
      by_cases hc : c = quote
      · subst hc
        rw [step_quote hs h]
        rfl
      · rw [place, if_neg hc]
        exact step_place hs hc h
  | some q =>
      have hstr : s = .str q := by
        cases s <;> simp_all [State.place]
      subst hstr
      rw [place]
      rw [step] at h
      by_cases hq : q = .plain ∧ c = quote
      · rw [if_pos hq] at h ⊢
        obtain ⟨rfl, _⟩ := Prod.mk.inj (Option.some.inj h)
        rfl
      · rw [if_neg hq] at h ⊢
        obtain ⟨q', hstep, heq⟩ := Option.map_eq_some_iff.mp h
        obtain ⟨rfl, _⟩ := Prod.mk.inj heq
        rw [hstep]
        rfl

/-! ## Where a document can end -/

theorem ne_of_invisible (hc : ¬ (32 < c.toNat ∧ c.toNat < 128)) (d : Char) (hd : 32 < d.toNat)
    (hd' : d.toNat < 128) : c ≠ chr d := by
  rintro rfl
  rw [toNat_chr hd'] at hc
  exact hc ⟨hd, hd'⟩

theorem isDigit_of_invisible (hc : ¬ (32 < c.toNat ∧ c.toNat < 128)) : isDigit c = false := by
  by_contra hdigit
  rw [Bool.not_eq_false, isDigit, Bool.and_eq_true, decide_eq_true_eq, decide_eq_true_eq,
    UInt8.le_iff_toNat_le, UInt8.le_iff_toNat_le] at hdigit
  have hzero : (chr '0').toNat = 48 := rfl
  have hnine : (chr '9').toNat = 57 := rfl
  omega

theorem endValue_invisible (hspace : isSpace c = false) (hc : ¬ (32 < c.toNat ∧ c.toNat < 128))
    (stack : List Nest) : endValue stack c = none := by
  have hne := ne_of_invisible hc
  cases stack with
  | nil => simp [endValue, hspace]
  | cons top rest =>
      cases top with
      | _ => simp (disch := decide) [endValue, hspace, hne]

/-- Outside of string literals a document is visible ASCII and the four blanks of its own. -/
theorem step_invisible (hs : s.place = none) (hspace : isSpace c = false)
    (hc : ¬ (32 < c.toNat ∧ c.toNat < 128)) : step s stack c = none := by
  have hne := ne_of_invisible hc
  have hdigit := isDigit_of_invisible hc
  have hend := endValue_invisible hspace hc
  have hquote : c ≠ quote := hne '"' (by decide) (by decide)
  cases s with
  | str q => exact absurd hs (by simp [State.place])
  | _ => simp (disch := decide) [step, beginValue, zero, eSign, owe, hne, hspace, hdigit, hend, hquote]

theorem eof_str (q : Str) (stack : List Nest) : eof (.str q) stack = false := by
  cases q with
  | plain => rfl
  | esc => rfl
  | escU owed => rfl

theorem place_of_eof (h : eof s stack = true) : s.place = none := by
  cases s with
  | str q =>
      rw [eof_str] at h
      exact Bool.noConfusion h
  | _ => rfl

theorem endValue_space (hc : isSpace c = true) (stack : List Nest) :
    endValue stack c = some (if stack.isEmpty then .endTop else .endValue, stack) := by
  cases stack with
  | nil => simp [endValue, hc]
  | cons top rest => simp [endValue, hc]

theorem eq_of_isSpace (hc : isSpace c = true) :
    c = chr ' ' ∨ c = chr '\t' ∨ c = chr '\r' ∨ c = chr '\n' := by
  simpa only [isSpace, Bool.or_eq_true, beq_iff_eq, or_assoc] using hc

/-- What a blank does outside of literals: nothing, or what it does behind a value. -/
theorem step_space (hc : isSpace c = true) (hs : s.place = none)
    (h : step s stack c = some (s', stack')) :
    (∀ d, isSpace d = true → step s stack d = some (s, stack))
      ∨ ∀ d, isSpace d = true → step s stack d = endValue stack d := by
  cases s with
  | str q => exact absurd hs (by simp [State.place])
  | beginValue => exact .inl fun d hd => if_pos hd
  | beginValueOrEmpty => exact .inl fun d hd => if_pos hd
  | beginStringOrEmpty => exact .inl fun d hd => if_pos hd
  | beginString => exact .inl fun d hd => if_pos hd
  | endTop => exact .inl fun d hd => if_pos hd
  | endValue => exact .inr fun d _ => rfl
  | _ =>
      -- a number is finished, a word is not
      right
      intro d hd
      rcases eq_of_isSpace hd with rfl | rfl | rfl | rfl <;> rcases eq_of_isSpace hc with rfl | rfl | rfl | rfl <;>
        first
        | rfl
        | exact absurd (show (none : Option (State × List Nest)) = some (s', stack') from h) (by simp)

theorem place_of_space (hc : isSpace c = true) (h : step s stack c = some (s', stack'))
    (hend : s'.place = none) : s.place = none := by
  rw [place_step h] at hend
  cases hs : s.place with
  | none => rfl
  | some q =>
      rw [hs, place, if_neg] at hend
      · cases hend
      · rintro ⟨_, rfl⟩
        rw [isSpace_quote] at hc
        exact Bool.noConfusion hc

theorem eof_of_space (hc : isSpace c = true) (h : step s stack c = some (s', stack'))
    (hend : eof s' stack' = true) : eof s stack = true := by
  have hblank : isSpace (chr ' ') = true := by decide
  have hs := place_of_space hc h (place_of_eof hend)
  rcases step_space hc hs h with hsame | hvalue
  · obtain ⟨rfl, rfl⟩ := Prod.mk.inj (Option.some.inj ((hsame c hc).symm.trans h))
    exact hend
  · have hstep := (hvalue c hc).symm.trans h
    rw [endValue_space hc] at hstep
    obtain ⟨rfl, rfl⟩ := Prod.mk.inj (Option.some.inj hstep)
    unfold eof
    rw [hvalue _ hblank, endValue_space hblank]
    cases stack with
    | nil => simp
    | cons top rest =>
        have hstay : eof .endValue (top :: rest) = false := rfl
        exact absurd (hstay.symm.trans hend) Bool.false_ne_true

theorem eof_of_spaces (hback : back.all isSpace = true) (h : run s stack back = some (s', stack'))
    (hend : eof s' stack' = true) : eof s stack = true := by
  induction back generalizing s stack with
  | nil =>
      obtain ⟨rfl, rfl⟩ := Prod.mk.inj (Option.some.inj h)
      exact hend
  | cons c back ih =>
      rw [List.all_cons, Bool.and_eq_true] at hback
      rw [run] at h
      obtain ⟨⟨m, mstack⟩, hstep, hrun⟩ := Option.bind_eq_some_iff.mp h
      exact eof_of_space hback.1 hstep (ih hback.2 hrun)

theorem run_spaces (hfront : front.all isSpace = true) (rest : Octets) :
    run .beginValue stack (front ++ rest) = run .beginValue stack rest := by
  induction front with
  | nil => rfl
  | cons c front ih =>
      rw [List.all_cons, Bool.and_eq_true] at hfront
      rw [List.cons_append, run, step, if_pos hfront.1]
      exact ih hfront.2

theorem valid_iff {text : Octets} : valid text = true ↔
    ∃ s stack, run .beginValue [] text = some (s, stack) ∧ eof s stack = true := by
  unfold valid
  cases hrun : run .beginValue [] text with
  | none => simp
  | some p =>
      refine ⟨fun h => ⟨p.1, p.2, rfl, h⟩, ?_⟩
      rintro ⟨s, stack, heq, h⟩
      obtain rfl := Option.some.inj heq
      exact h

theorem blank_of_isSpace (h : text.all isSpace = true) : Blank text := by
  induction text with
  | nil => exact .nil
  | cons c text ih =>
      rw [List.all_cons, Bool.and_eq_true] at h
      refine @Blank.cons [c] text ?_ (ih h.2)
      rcases eq_of_isSpace h.1 with rfl | rfl | rfl | rfl <;> decide

theorem visible_head (h : valid (c :: back) = true) (hc : isSpace c = false) :
    32 < c.toNat ∧ c.toNat < 128 := by
  obtain ⟨s, stack, hrun, _⟩ := valid_iff.mp h
  by_contra hvisible
  rw [run, step_invisible rfl hc hvisible] at hrun
  cases hrun

theorem visible_getLast (h : valid (front ++ [c]) = true) (hc : isSpace c = false) :
    32 < c.toNat ∧ c.toNat < 128 := by
  obtain ⟨s, stack, hrun, hend⟩ := valid_iff.mp h
  obtain ⟨m, mstack, _, hback⟩ := run_of_append hrun
  rw [run] at hback
  obtain ⟨⟨m', mstack'⟩, hstep, heq⟩ := Option.bind_eq_some_iff.mp hback
  obtain ⟨rfl, rfl⟩ := Prod.mk.inj (Option.some.inj heq)
  by_contra hvisible
  cases hm : m.place with
  | none =>
      rw [step_invisible hm hc hvisible] at hstep
      cases hstep
  | some q =>
      have hplace := (place_step hstep).symm.trans (place_of_eof hend)
      rw [hm, place] at hplace
      split at hplace
      · rename_i hquote
        rw [hquote.2] at hvisible
        exact hvisible (by decide)
      · cases hplace

theorem exists_core (h : valid text = true) : ∃ lead core trail, text = lead ++ core ++ trail
    ∧ lead.all isSpace = true ∧ trail.all isSpace = true ∧ core ≠ [] ∧ valid core = true
    ∧ (∀ b ∈ core.head?, Solid b) ∧ ∀ b ∈ core.getLast?, Solid b := by
  obtain ⟨lead, rest, hlead, hsplit, hhead⟩ : ∃ lead rest, lead.all isSpace = true
      ∧ lead ++ rest = text ∧ ∀ b ∈ rest.head?, isSpace b = false := by
    refine ⟨_, _, List.all_takeWhile, List.takeWhile_append_dropWhile (p := isSpace), ?_⟩
    intro b hb
    have hnot := List.head?_dropWhile_not isSpace text
    rw [hb] at hnot
    exact hnot
  obtain ⟨core, trail, htrail, rfl, hlast⟩ : ∃ core trail, trail.all isSpace = true
      ∧ core ++ trail = rest ∧ ∀ b ∈ core.getLast?, isSpace b = false := by
    refine ⟨_, _, ?_, List.rdropWhile_append_rtakeWhile (p := isSpace), ?_⟩
    · exact List.all_eq_true.mpr fun b hb => List.mem_rtakeWhile_imp hb
    · intro b hb
      have hne : rest.rdropWhile isSpace ≠ [] := by
        intro hnil
        rw [hnil] at hb
        cases hb
      have hnot := List.rdropWhile_last_not isSpace rest hne
      rw [List.getLast?_eq_some_getLast hne] at hb
      rw [← Option.some.inj hb]
      exact Bool.eq_false_iff.mpr hnot
  have hvalid : valid core = true := by
    rw [← hsplit] at h
    obtain ⟨s, stack, hrun, hend⟩ := valid_iff.mp h
    rw [run_spaces hlead] at hrun
    obtain ⟨m, mstack, hcore, hback⟩ := run_of_append hrun
    exact valid_iff.mpr ⟨m, mstack, hcore, eof_of_spaces htrail hback hend⟩
  have hne : core ≠ [] := by
    rintro rfl
    cases hvalid
  refine ⟨lead, core, trail, by rw [List.append_assoc, hsplit], hlead, htrail, hne, hvalid, ?_, ?_⟩
  · intro b hb
    obtain ⟨c, core, rfl⟩ := List.exists_cons_of_ne_nil hne
    obtain rfl := Option.some.inj hb
    have hvis := visible_head hvalid (hhead _ rfl)
    exact solid_of_visible hvis.1 hvis.2
  · intro b hb
    obtain ⟨init, rfl⟩ := List.getLast?_eq_some_iff.mp hb
    have hvis := visible_getLast hvalid (hlast b hb)
    exact solid_of_visible hvis.1 hvis.2

/-- **A valid document is what is left** when blanks around it are trimmed, or as good. -/
theorem valid_trimSpace (hfront : Blank front) (hback : Blank back) (h : valid text = true) :
    valid (trimSpace (front ++ text ++ back)) = true := by
  obtain ⟨lead, core, trail, rfl, hlead, htrail, hne, hvalid, hhead, hlast⟩ := exists_core h
  have hsplit : front ++ (lead ++ core ++ trail) ++ back
      = (front ++ lead) ++ core ++ (trail ++ back) := by
    simp only [List.append_assoc]
  rw [hsplit, trimSpace_blank (hfront.append (blank_of_isSpace hlead))
    ((blank_of_isSpace htrail).append hback) hne hhead hlast]
  exact hvalid

/-! ## Documents that differ inside of literals -/

/-- Two texts that are the same but for what keeps inside of string literals, read from `q` on. -/
inductive Alike : Option Str → Octets → Octets → Prop where
  | nil {q : Option Str} : Alike q [] []
  | cons {q : Option Str} {c : UInt8} {r k : Octets} (h : Alike (place q c) r k) :
      Alike q (c :: r) (c :: k)
  | inside {v w r k : Octets} (hv : strRun .plain v = some .plain)
      (hw : strRun .plain w = some .plain) (h : Alike (some .plain) r k) :
      Alike (some .plain) (v ++ r) (w ++ k)

variable {r k : Octets}

theorem Alike.symm {q : Option Str} (h : Alike q r k) : Alike q k r := by
  induction h with
  | nil => exact .nil
  | cons _ ih => exact .cons ih
  | inside hv hw _ ih => exact .inside hw hv ih

theorem Alike.append {q : Option Str} (s : Octets) (h : Alike (places q s) r k) :
    Alike q (s ++ r) (s ++ k) := by
  induction s generalizing q with
  | nil => exact h
  | cons c s ih => exact .cons (ih h)

/-- Outside of literals the two are the same. -/
theorem Alike.outside (hfront : quote ∉ front) (h : Alike none (front ++ r) k) :
    ∃ k', k = front ++ k' ∧ Alike none r k' := by
  induction front generalizing k with
  | nil => exact ⟨k, rfl, h⟩
  | cons c front ih =>
      rw [List.cons_append] at h
      cases h with
      | cons h =>
          have hc : place none c = none := by
            refine if_neg ?_
            rintro rfl
            exact hfront List.mem_cons_self
          rw [hc] at h
          obtain ⟨k', rfl, hk'⟩ := ih (fun hin => hfront (List.mem_cons_of_mem c hin)) h
          exact ⟨k', rfl, hk'⟩

/-- **The scanner reads the one as it reads the other**, up to where it is outside of literals. -/
theorem Alike.run {q : Option Str} (h : Alike q r k) (hr : r = text ++ rest) (hs : s.place = q)
    (hrun : run s stack text = some (s', stack')) (hend : s'.place = none) :
    ∃ text' rest', k = text' ++ rest' ∧ Json.run s stack text' = some (s', stack')
      ∧ Alike none rest rest' := by
  induction h generalizing text s stack with
  | nil =>
      obtain ⟨rfl, rfl⟩ := List.append_eq_nil_iff.mp hr.symm
      exact ⟨[], [], rfl, hrun, .nil⟩
  | @cons q c r k hrest ih =>
      cases text with
      | nil =>
          obtain ⟨rfl, rfl⟩ := Prod.mk.inj (Option.some.inj hrun)
          rw [List.nil_append] at hr
          rw [← hr]
          rw [hend] at hs
          exact ⟨[], c :: k, rfl, rfl, hs ▸ .cons hrest⟩
      | cons c' text =>
          obtain ⟨rfl, rfl⟩ := List.cons.inj hr
          rw [Json.run] at hrun
          obtain ⟨⟨m, mstack⟩, hstep, hrun⟩ := Option.bind_eq_some_iff.mp hrun
          have hm : m.place = place q c := by rw [place_step hstep, hs]
          obtain ⟨text', rest', rfl, hrun', hrest'⟩ := ih rfl hm hrun
          refine ⟨c :: text', rest', rfl, ?_, hrest'⟩
          rw [Json.run, hstep]
          exact hrun'
  | @inside v w r k hv hw hrest ih =>
      have hstr : s = .str .plain := by
        cases s with
        | str q => exact congrArg State.str (Option.some.inj hs)
        | _ => exact absurd hs (by simp [State.place])
      subst hstr
      rcases List.append_eq_append_iff.mp hr with ⟨tail, rfl, hrest''⟩ | ⟨tail, rfl, hrest''⟩
      · -- the text goes on behind the value
        obtain ⟨m, mstack, hrunv, hrun⟩ := run_of_append hrun
        obtain ⟨rfl, rfl⟩ := Prod.mk.inj (Option.some.inj ((run_str hv stack).symm.trans hrunv))
        obtain ⟨text', rest', rfl, hrun', hrest'⟩ := ih hrest'' rfl hrun
        refine ⟨w ++ text', rest', (List.append_assoc _ _ _).symm, ?_, hrest'⟩
        rw [run_append, run_str hw]
        exact hrun'
      · -- or ends in it, inside of the literal
        rw [strRun_append] at hv
        obtain ⟨q', hq', _⟩ := Option.bind_eq_some_iff.mp hv
        rw [run_str hq'] at hrun
        obtain ⟨rfl, _⟩ := Prod.mk.inj (Option.some.inj hrun)
        exact absurd hend (by simp [State.place])

theorem quote_not_mem_blank (h : Blank text) : quote ∉ text := by
  intro hin
  have hall : ∀ sp ∈ spaces, quote ∉ sp := by decide
  obtain ⟨sp, hsp, hmem⟩ := h.mem hin
  exact hall sp hsp hmem

theorem Alike.valid_trimSpace (h : Alike none r k) (hr : valid (trimSpace r) = true) :
    valid (trimSpace k) = true := by
  obtain ⟨front, back, hsplit, hfront, hback⟩ := trimSpace_split r
  rw [hsplit, List.append_assoc] at h
  obtain ⟨k', rfl, h'⟩ := h.outside (quote_not_mem_blank hfront)
  obtain ⟨s, stack, hrun, hend⟩ := valid_iff.mp hr
  obtain ⟨text', rest', rfl, hrun', hrest⟩ := h'.run rfl rfl hrun (place_of_eof hend)
  rw [← List.append_nil back] at hrest
  obtain ⟨k'', rfl, hnil⟩ := hrest.outside (quote_not_mem_blank hback)
  cases hnil
  rw [List.append_nil, ← List.append_assoc]
  exact Json.valid_trimSpace hfront hback (valid_iff.mpr ⟨s, stack, hrun', hend⟩)

/-- **Texts that differ only inside of string literals** are both valid or both not, without the
blanks at their ends. -/
theorem Alike.valid_iff (h : Alike none r k) :
    valid (trimSpace r) = true ↔ valid (trimSpace k) = true :=
  ⟨h.valid_trimSpace, h.symm.valid_trimSpace⟩

/-! ## Strings as they are written -/

def hexDigit (n : Nat) : UInt8 := ("0123456789abcdef".toList.map chr).getD n 0

/-- An ASCII octet, as `appendString` writes it where HTML is escaped too. -/
def escapeAscii (b : UInt8) : Octets :=
  if b = chr '\\' ∨ b = quote then [chr '\\', b]
  else if b = 0x08 then octets "\\b"
  else if b = 0x0c then octets "\\f"
  else if b = chr '\n' then octets "\\n"
  else if b = chr '\r' then octets "\\r"
  else if b = chr '\t' then octets "\\t"
  else if b < 0x20 ∨ b ∈ "<>&".toList.map chr then
    octets "\\u00" ++ [hexDigit (b.toNat / 16), hexDigit (b.toNat % 16)]
  else [b]

/-- The rune in front as `appendString` writes it, and how many octets it is. -/
def escapeRune (b : UInt8) (rest : Octets) : Octets × Nat :=
  if b < 0x80 then (escapeAscii b, 1)
  else
    let (r, n) := decodeRune (b :: rest)
    if r = runeError ∧ n = 1 then (octets "\\ufffd", 1)
    else if r = 0x2028 ∨ r = 0x2029 then (octets "\\u202" ++ [hexDigit (r % 16)], n)
    else ((b :: rest).take n, n)

/-- The loop of `appendString`, over at most `fuel` runes. -/
def escapeRunes : Nat → Octets → Octets
  | 0, _ => []
  | _, [] => []
  | fuel + 1, b :: rest =>
      let (out, n) := escapeRune b rest
      out ++ escapeRunes fuel ((b :: rest).drop n)

/-- `json.Marshal` of a string, without the quotes. -/
def escape (s : Octets) : Octets := escapeRunes s.length s

example : escape (octets "a\"<\u2028\n" ++ [0xff]) = octets "a\\\"\\u003c\\u2028\\n\\ufffd" := by decide

theorem strRun_escapeAscii {b : UInt8} (h : b.toNat < 128) :
    strRun .plain (escapeAscii b) = some .plain := by
  have hall : ∀ n : Fin 128, strRun .plain (escapeAscii (UInt8.ofNat n)) = some .plain := by
    decide +kernel
  have hb := hall ⟨b.toNat, h⟩
  rwa [UInt8.ofNat_toNat] at hb

theorem strRun_high {s : Octets} (h : ∀ b ∈ s, 128 ≤ b.toNat) : strRun .plain s = some .plain := by
  induction s with
  | nil => rfl
  | cons b s ih =>
      have hb := h b List.mem_cons_self
      have hquote : b ≠ quote := by
        rintro rfl
        exact absurd hb (by decide)
      have hesc : b ≠ chr '\\' := by
        rintro rfl
        exact absurd hb (by decide)
      have hcontrol : ¬ b < 0x20 := by
        rw [UInt8.lt_iff_toNat_lt]
        have hspace : (0x20 : UInt8).toNat = 32 := rfl
        omega
      rw [strRun, strStep, if_neg hquote, if_neg hesc, if_neg hcontrol]
      exact ih fun b hb => h b (List.mem_cons_of_mem _ hb)

theorem strRun_escapeRune (b : UInt8) (rest : Octets) :
    strRun .plain (escapeRune b rest).1 = some .plain := by
  have hdigit : ∀ n : Fin 16, strRun .plain (octets "\\u202" ++ [hexDigit n]) = some .plain := by decide
  unfold escapeRune
  by_cases hb : b < 0x80
  · rw [if_pos hb]
    exact strRun_escapeAscii (UInt8.lt_iff_toNat_lt.mp hb)
  · have hhigh := high_of_decodeRune hb rest
    rw [if_neg hb]
    dsimp only
    split
    · decide
    · split
      · exact hdigit ⟨_, Nat.mod_lt _ (by decide)⟩
      · exact strRun_high hhigh

/-- **A string as it is written keeps inside of the literal**, whatever it is. -/
theorem strRun_escape (s : Octets) : strRun .plain (escape s) = some .plain := by
  have hruns : ∀ fuel s, strRun .plain (escapeRunes fuel s) = some .plain := by
    intro fuel
    induction fuel with
    | zero => exact fun s => rfl
    | succ fuel ih =>
        intro s
        cases s with
        | nil => rfl
        | cons b rest =>
            rw [escapeRunes, strRun_append, strRun_escapeRune]
            exact ih _
  exact hruns s.length s

theorem escape_of_plain {s : Octets} (h : ∀ b ∈ s, b < 0x80 ∧ escapeAscii b = [b]) : escape s = s := by
  have hruns : ∀ s : Octets, (∀ b ∈ s, b < 0x80 ∧ escapeAscii b = [b]) →
      escapeRunes s.length s = s := by
    intro s h
    induction s with
    | nil => rfl
    | cons b s ih =>
        have hb := h b List.mem_cons_self
        rw [List.length_cons, escapeRunes, escapeRune, if_pos hb.1]
        dsimp only
        rw [hb.2, List.drop_one, List.tail_cons, ih fun c hc => h c (List.mem_cons_of_mem b hc)]
        rfl
  exact hruns s h

end Json
