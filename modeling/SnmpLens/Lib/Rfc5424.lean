import SnmpLens.Lib.Strings

/-!
# Syslog records (RFC 5424)

A record as it is written, and a reader for the grammar: a header of seven fields, the
structured data with its elements and their parameters, and the message. Of the text in a
parameter three characters are escaped, with a backslash that is one itself; a backslash in
front of anything else stands for itself. A record that is well formed reads back.

A timestamp is any field here, and a UTF-8 string any octets, which is how the ABNF writes it.
-/

namespace Rfc5424

open Utf8

/-- What a record says. -/
structure Record where
  pri : Nat
  version : Nat
  timestamp : Octets
  hostname : Octets
  appName : Octets
  procID : Octets
  msgID : Octets
  /-- The elements of the structured data, by their ids, and their parameters. -/
  data : List (Octets × List (Octets × Octets))
  msg : Octets
deriving DecidableEq, Repr

/-- PRINTUSASCII. -/
def isPrint (b : UInt8) : Bool := 33 ≤ b && b ≤ 126

/-- What a name in the structured data is made of. -/
def isName (b : UInt8) : Bool :=
  isPrint b && b != chr '=' && b != chr ']' && b != chr '"'

/-- The characters that are escaped in a parameter. -/
def isEscaped (b : UInt8) : Bool := b == chr '"' || b == chr '\\' || b == chr ']'

/-! ## Writing -/

def escape (v : Octets) : Octets := v.flatMap fun b => if isEscaped b then [chr '\\', b] else [b]

def writeParam (p : Octets × Octets) : Octets :=
  chr ' ' :: p.1 ++ chr '=' :: chr '"' :: escape p.2 ++ [chr '"']

def writeElement (e : Octets × List (Octets × Octets)) : Octets :=
  chr '[' :: e.1 ++ e.2.flatMap writeParam ++ [chr ']']

def writeData (data : List (Octets × List (Octets × Octets))) : Octets :=
  if data.isEmpty then [chr '-'] else data.flatMap writeElement

def Record.write (r : Record) : Octets :=
  chr '<' :: Strings.formatUint r.pri ++ chr '>' :: Strings.formatUint r.version
    ++ chr ' ' :: r.timestamp ++ chr ' ' :: r.hostname ++ chr ' ' :: r.appName
    ++ chr ' ' :: r.procID ++ chr ' ' :: r.msgID ++ chr ' ' :: writeData r.data
    ++ chr ' ' :: r.msg

/-! ## Reading -/

def expect (b : UInt8) : Octets → Option Octets
  | [] => none
  | c :: s => if c = b then some s else none

/-- A number of so many digits at most. -/
def number (max : Nat) (s : Octets) : Option (Nat × Octets) :=
  let ds := s.takeWhile Strings.isDigit
  if ds.isEmpty || max < ds.length then none else some (Strings.value ds, s.drop ds.length)

/-- A run of such octets, not empty and of so many at most. -/
def run (p : UInt8 → Bool) (max : Nat) (s : Octets) : Option (Octets × Octets) :=
  let f := s.takeWhile p
  if f.isEmpty || max < f.length then none else some (f, s.drop f.length)

/-- A field of the header, and the space in front of it. -/
def field (max : Nat) (s : Octets) : Option (Octets × Octets) := (expect (chr ' ') s).bind (run isPrint max)

/-- The value of a parameter, up to the quote that ends it. -/
def paramValue : Octets → Option (Octets × Octets)
  | [] => none
  | b :: s =>
      if b = chr '"' then some ([], s)
      else if b = chr ']' then none
      else if b = chr '\\' then
        match s with
        | [] => none
        | c :: rest =>
            if isEscaped c then (paramValue rest).map fun r => (c :: r.1, r.2)
            else (paramValue (c :: rest)).map fun r => (b :: r.1, r.2)
      else (paramValue s).map fun r => (b :: r.1, r.2)

/-- The parameters of an element up to the bracket that closes it, fewer than `fuel`. -/
def params : Nat → Octets → Option (List (Octets × Octets) × Octets)
  | 0, _ => none
  | fuel + 1, s =>
      if s.head? = some (chr ']') then some ([], s.tail)
      else do
        let s ← expect (chr ' ') s
        let (name, s) ← run isName 32 s
        let s ← expect (chr '=') s
        let s ← expect (chr '"') s
        let (value, s) ← paramValue s
        let (more, s) ← params fuel s
        return ((name, value) :: more, s)

/-- One element or more, fewer than `fuel`. -/
def elements : Nat → Octets → Option (List (Octets × List (Octets × Octets)) × Octets)
  | 0, _ => none
  | fuel + 1, s => do
      let s ← expect (chr '[') s
      let (id, s) ← run isName 32 s
      let (ps, s) ← params (s.length + 1) s
      if s.head? = some (chr '[') then
        let (more, s) ← elements fuel s
        return ((id, ps) :: more, s)
      else return ([(id, ps)], s)

def structuredData (s : Octets) : Option (List (Octets × List (Octets × Octets)) × Octets) :=
  if s.head? = some (chr '-') then some ([], s.tail) else elements (s.length + 1) s

/-- A record, if the octets are one. -/
def read (s : Octets) : Option Record := do
  let s ← expect (chr '<') s
  let (pri, s) ← number 3 s
  let s ← expect (chr '>') s
  let (version, s) ← number 3 s
  let (timestamp, s) ← field s.length s
  let (hostname, s) ← field 255 s
  let (appName, s) ← field 48 s
  let (procID, s) ← field 128 s
  let (msgID, s) ← field 32 s
  let s ← expect (chr ' ') s
  let (data, s) ← structuredData s
  let msg ← if s.isEmpty then some [] else expect (chr ' ') s
  if 191 < pri ∨ version = 0 then none
  else some { pri, version, timestamp, hostname, appName, procID, msgID, data, msg }

/-! ## Well-formed records -/

/-- A run that is not empty and not too long. -/
structure IsRun (p : UInt8 → Bool) (max : Nat) (s : Octets) : Prop where
  all : ∀ b ∈ s, p b = true
  nonempty : s ≠ []
  short : s.length ≤ max

structure IsElement (e : Octets × List (Octets × Octets)) : Prop where
  id : IsRun isName 32 e.1
  names : ∀ p ∈ e.2, IsRun isName 32 p.1

structure Record.WellFormed (r : Record) : Prop where
  pri : r.pri ≤ 191
  version : 0 < r.version ∧ r.version < 1000
  timestamp : IsRun isPrint r.timestamp.length r.timestamp
  hostname : IsRun isPrint 255 r.hostname
  appName : IsRun isPrint 48 r.appName
  procID : IsRun isPrint 128 r.procID
  msgID : IsRun isPrint 32 r.msgID
  data : ∀ e ∈ r.data, IsElement e

/-! ## Reading what is written -/

variable {p : UInt8 → Bool} {max : Nat} {s rest : Octets} {b : UInt8}

@[simp] theorem expect_cons (b : UInt8) (s : Octets) : expect b (b :: s) = some s := if_pos rfl

theorem run_append (hs : IsRun p max s) (hb : p b = false) (rest : Octets) :
    run p max (s ++ b :: rest) = some (s, b :: rest) := by
  have htake : (s ++ b :: rest).takeWhile p = s := by
    rw [List.takeWhile_append_of_pos hs.all, List.takeWhile_cons_of_neg (by rw [hb]; decide),
      List.append_nil]
  unfold run
  simp only [htake, List.drop_left]
  rw [if_neg]
  simp [hs.nonempty, hs.short]

theorem field_append (hs : IsRun isPrint max s) (hb : isPrint b = false) (rest : Octets) :
    field max (chr ' ' :: (s ++ b :: rest)) = some (s, b :: rest) := by
  unfold field
  rw [expect_cons, Option.bind_some, run_append hs hb]

theorem length_formatUint_le (n : Nat) (h : n < 1000) : (Strings.formatUint n).length ≤ 3 :=
  Strings.length_digits_le (by omega) h

theorem number_append {n : Nat} (hn : n < 1000) (hb : Strings.isDigit b = false) (rest : Octets) :
    number 3 (Strings.formatUint n ++ b :: rest) = some (n, b :: rest) := by
  have htake : (Strings.formatUint n ++ b :: rest).takeWhile Strings.isDigit
      = Strings.formatUint n := by
    rw [List.takeWhile_append_of_pos (fun c hc => Strings.isDigit_of_mem hc),
      List.takeWhile_cons_of_neg (by rw [hb]; decide), List.append_nil]
  have hvalue : Strings.value (Strings.formatUint n) = n :=
    Strings.value_digits (Nat.lt_succ_self n)
  have hlength := length_formatUint_le n hn
  unfold number
  simp only [htake, List.drop_left, hvalue]
  rw [if_neg]
  simp [Strings.formatUint_ne_nil, hlength]

theorem paramValue_quote (rest : Octets) : paramValue (chr '"' :: rest) = some ([], rest) := by
  unfold paramValue
  exact if_pos rfl

theorem paramValue_escaped (hb : isEscaped b = true) (rest : Octets) :
    paramValue (chr '\\' :: b :: rest) = (paramValue rest).map fun r => (b :: r.1, r.2) := by
  conv_lhs => unfold paramValue
  dsimp only
  rw [if_neg (by decide), if_neg (by decide), if_pos rfl, if_pos hb]

theorem paramValue_plain (hb : isEscaped b = false) (rest : Octets) :
    paramValue (b :: rest) = (paramValue rest).map fun r => (b :: r.1, r.2) := by
  simp only [isEscaped, Bool.or_eq_false_iff, beq_eq_false_iff_ne] at hb
  conv_lhs => unfold paramValue
  rw [if_neg hb.1.1, if_neg hb.2, if_neg hb.1.2]

/-- **An escaped value reads back**, and the quote behind it ends it. -/
theorem paramValue_escape (v rest : Octets) :
    paramValue (escape v ++ chr '"' :: rest) = some (v, rest) := by
  induction v with
  | nil => exact paramValue_quote rest
  | cons b v ih =>
      have hcons : escape (b :: v) = (if isEscaped b then [chr '\\', b] else [b]) ++ escape v := rfl
      rw [hcons, List.append_assoc]
      cases hb : isEscaped b with
      | true =>
          rw [if_pos rfl, List.cons_append, List.singleton_append, paramValue_escaped hb, ih]
          rfl
      | false =>
          rw [if_neg Bool.false_ne_true, List.singleton_append, paramValue_plain hb, ih]
          rfl

theorem not_isName_eq : isName (chr '=') = false := by decide

theorem params_write {ps : List (Octets × Octets)} (hps : ∀ q ∈ ps, IsRun isName 32 q.1)
    {fuel : Nat} (hfuel : ps.length < fuel) (rest : Octets) :
    params fuel (ps.flatMap writeParam ++ chr ']' :: rest) = some (ps, rest) := by
  induction ps generalizing fuel with
  | nil =>
      cases fuel with
      | zero => omega
      | succ fuel =>
          unfold params
          exact if_pos rfl
  | cons q ps ih =>
      cases fuel with
      | zero => omega
      | succ fuel =>
          have hrec := ih (fun r hr => hps r (List.mem_cons_of_mem q hr)) (Nat.lt_of_succ_lt_succ hfuel)
          have hq := hps q List.mem_cons_self
          have hshape : (q :: ps).flatMap writeParam ++ chr ']' :: rest
              = chr ' ' :: (q.1 ++ chr '=' :: (chr '"' :: (escape q.2
                ++ chr '"' :: (ps.flatMap writeParam ++ chr ']' :: rest)))) := by
            simp [writeParam]
          rw [hshape]
          unfold params
          have hspace : ¬ some (chr ' ') = some (chr ']') := by decide
          rw [List.head?_cons, if_neg hspace]
          simp only [expect_cons, Option.bind_eq_bind, Option.bind_some, run_append hq not_isName_eq,
            paramValue_escape, hrec]
          rfl

theorem length_flatMap_writeParam (ps : List (Octets × Octets)) :
    ps.length ≤ (ps.flatMap writeParam).length := by
  induction ps with
  | nil => exact Nat.le_refl _
  | cons q ps ih =>
      have hpos : 0 < (writeParam q).length := by simp [writeParam]
      rw [List.flatMap_cons, List.length_append, List.length_cons]
      omega

theorem not_isName_space : isName (chr ' ') = false := by decide

theorem not_isName_bracket : isName (chr ']') = false := by decide

theorem elements_write {data : List (Octets × List (Octets × Octets))} (hne : data ≠ [])
    (hdata : ∀ e ∈ data, IsElement e) {fuel : Nat} (hfuel : data.length < fuel)
    (hrest : rest.head? ≠ some (chr '[')) :
    elements fuel (data.flatMap writeElement ++ rest) = some (data, rest) := by
  induction data generalizing fuel with
  | nil => exact absurd rfl hne
  | cons e data ih =>
      cases fuel with
      | zero => omega
      | succ fuel =>
          obtain ⟨hid, hnames⟩ := hdata e List.mem_cons_self
          obtain ⟨more, hmore⟩ : ∃ more, more = data.flatMap writeElement ++ rest := ⟨_, rfl⟩
          have hshape : (e :: data).flatMap writeElement ++ rest
              = chr '[' :: (e.1 ++ (e.2.flatMap writeParam ++ chr ']' :: more)) := by
            rw [hmore]
            simp [writeElement]
          -- the id ends at a space or at the bracket
          have hrun : run isName 32 (e.1 ++ (e.2.flatMap writeParam ++ chr ']' :: more))
              = some (e.1, e.2.flatMap writeParam ++ chr ']' :: more) := by
            cases hps : e.2 with
            | nil => exact run_append hid not_isName_bracket more
            | cons q ps =>
                rw [List.flatMap_cons]
                simp only [writeParam, List.cons_append]
                exact run_append hid not_isName_space _
          have henough : e.2.length < (e.2.flatMap writeParam ++ chr ']' :: more).length + 1 := by
            have hlength := length_flatMap_writeParam e.2
            rw [List.length_append]
            omega
          have hparams := params_write hnames henough more
          rw [hshape]
          unfold elements
          simp only [expect_cons, Option.bind_eq_bind, Option.bind_some, hrun, hparams]
          cases data with
          | nil =>
              have hend : more = rest := hmore
              rw [hend, if_neg hrest]
              rfl
          | cons f data =>
              have hhead : more.head? = some (chr '[') := by
                rw [hmore, List.flatMap_cons]
                rfl
              rw [if_pos hhead, hmore, ih (List.cons_ne_nil f data)
                (fun g hg => hdata g (List.mem_cons_of_mem e hg)) (Nat.lt_of_succ_lt_succ hfuel)]
              rfl

theorem length_flatMap_writeElement (data : List (Octets × List (Octets × Octets))) :
    data.length ≤ (data.flatMap writeElement).length := by
  induction data with
  | nil => exact Nat.le_refl _
  | cons e data ih =>
      have hpos : 0 < (writeElement e).length := by simp [writeElement]
      rw [List.flatMap_cons, List.length_append, List.length_cons]
      omega

theorem structuredData_write {data : List (Octets × List (Octets × Octets))}
    (hdata : ∀ e ∈ data, IsElement e) (rest : Octets) :
    structuredData (writeData data ++ chr ' ' :: rest) = some (data, chr ' ' :: rest) := by
  have hspace : (chr ' ' :: rest).head? ≠ some (chr '[') := by
    rw [List.head?_cons]
    decide
  cases data with
  | nil => rfl
  | cons e data =>
      have hlength := length_flatMap_writeElement (e :: data)
      have hdash : ¬ ((e :: data).flatMap writeElement ++ chr ' ' :: rest).head? = some (chr '-') := by
        rw [List.flatMap_cons]
        simp only [writeElement, List.cons_append, List.head?_cons]
        decide
      unfold structuredData writeData
      rw [List.isEmpty_cons, if_neg Bool.false_ne_true, if_neg hdash]
      refine elements_write (List.cons_ne_nil e data) hdata ?_ hspace
      rw [List.length_append]
      omega

/-- **A well-formed record reads back.** -/
theorem read_write {r : Record} (h : r.WellFormed) : read r.write = some r := by
  have hspace : isPrint (chr ' ') = false := by decide
  have hshape : r.write = chr '<' :: (Strings.formatUint r.pri ++ chr '>' ::
      (Strings.formatUint r.version ++ chr ' ' :: (r.timestamp ++ chr ' ' :: (r.hostname
      ++ chr ' ' :: (r.appName ++ chr ' ' :: (r.procID ++ chr ' ' :: (r.msgID ++ chr ' ' ::
      (writeData r.data ++ chr ' ' :: r.msg)))))))) := by
    simp [Record.write]
  have hpri := h.pri
  have htime : ∀ rest : Octets, IsRun isPrint (chr ' ' :: (r.timestamp ++ rest)).length r.timestamp := by
    intro rest
    refine ⟨h.timestamp.all, h.timestamp.nonempty, ?_⟩
    rw [List.length_cons, List.length_append]
    omega
  rw [hshape]
  unfold read
  simp only [expect_cons, Option.bind_eq_bind, Option.bind_some,
    number_append (show r.pri < 1000 by omega) (show Strings.isDigit (chr '>') = false by decide),
    number_append h.version.2 (show Strings.isDigit (chr ' ') = false by decide),
    field_append (htime _) hspace, field_append h.hostname hspace, field_append h.appName hspace,
    field_append h.procID hspace, field_append h.msgID hspace, structuredData_write h.data]
  have hversion := h.version.1
  rw [List.isEmpty_cons, if_neg Bool.false_ne_true, if_neg (by omega)]

end Rfc5424
