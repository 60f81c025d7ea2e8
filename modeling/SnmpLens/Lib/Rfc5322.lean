import Mathlib.Data.List.Basic
import SnmpLens.Lib.Utf8

/-!
# Messages: header fields and a body (RFC 5322)

A message is read line by line. A line that begins with a blank goes on with the field in
front of it, an empty line ends the header, and what is behind it is the body. A CR or LF
that is not part of a line break makes the header unreadable here; a reader that takes one
for a line break would find other fields. A message whose fields are well formed reads back.
-/

namespace Rfc5322

open Utf8

def cr : UInt8 := chr '\r'

def lf : UInt8 := chr '\n'

def crlf : Octets := [cr, lf]

def isBlank (b : UInt8) : Bool := b == chr ' ' || b == chr '\t'

/-- What a field name is made of. -/
def isFtext (b : UInt8) : Bool := 33 ≤ b && b ≤ 126 && b != chr ':'

/-- Text without a line break, or a part of one. -/
def OneLine (s : Octets) : Prop := ∀ b ∈ s, b ≠ cr ∧ b ≠ lf

/-! ## Reading -/

/-- A line without its end, and what is behind it. -/
def line : Octets → Option (Octets × Octets)
  | [] => none
  | b :: s =>
      if b = lf then none
      else if b = cr then
        match s with
        | c :: rest => if c = lf then some ([], rest) else none
        | [] => none
      else (line s).map fun r => (b :: r.1, r.2)

/-- A line and the lines that go on with it, put together; fewer than `fuel`. -/
def unfolded : Nat → Octets → Option (Octets × Octets)
  | 0, _ => none
  | fuel + 1, s => do
      let (l, s) ← line s
      if l ≠ [] ∧ s.head?.any isBlank then
        let (more, s) ← unfolded fuel s
        return (l ++ more, s)
      else return (l, s)

/-- A field's value with its folds undone: a line break in front of a blank is taken out. -/
def unfoldValue : Octets → Octets
  | b :: c :: s =>
      if b = cr ∧ c = lf ∧ s.head?.any isBlank then unfoldValue s else b :: unfoldValue (c :: s)
  | s => s

/-- A name in front of the first colon, and what is behind it. -/
def field (l : Octets) : Option (Octets × Octets) :=
  let name := l.takeWhile isFtext
  if name.isEmpty then none
  else
    match l.drop name.length with
    | b :: value => if b = chr ':' then some (name, value) else none
    | [] => none

/-- The fields up to the first empty line, and what is behind it; fewer than `fuel`. -/
def fields : Nat → Octets → Option (List (Octets × Octets) × Octets)
  | 0, _ => none
  | fuel + 1, s => do
      let (l, s) ← unfolded (s.length + 1) s
      if l = [] then return ([], s)
      else
        let f ← field l
        let (more, s) ← fields fuel s
        return (f :: more, s)

/-- A message, if the octets are one: its header fields and its body. -/
def read (s : Octets) : Option (List (Octets × Octets) × Octets) := fields (s.length + 1) s

/-! ## Writing -/

/-- A field as it is written: its value on one line, and the lines that go on with it. -/
structure Field where
  name : Octets
  value : Octets
  folds : List Octets := []
deriving DecidableEq, Repr

structure Field.WellFormed (f : Field) : Prop where
  name : f.name ≠ [] ∧ ∀ b ∈ f.name, isFtext b = true
  value : OneLine f.value
  folds : ∀ s ∈ f.folds, OneLine s ∧ s.head?.any isBlank = true

/-- Name and value, as a reader has them. -/
def Field.meant (f : Field) : Octets × Octets := (f.name, f.value ++ f.folds.flatten)

def writeFolds (folds : List Octets) : Octets := folds.flatMap (crlf ++ ·)

def Field.write (f : Field) : Octets :=
  f.name ++ chr ':' :: f.value ++ writeFolds f.folds ++ crlf

def write (fs : List Field) (body : Octets) : Octets := fs.flatMap Field.write ++ crlf ++ body

/-! ## Reading what is written -/

theorem oneLine_nil : OneLine [] := fun _ hb => absurd hb List.not_mem_nil

theorem OneLine.append {s t : Octets} (hs : OneLine s) (ht : OneLine t) : OneLine (s ++ t) := by
  intro b hb
  rcases List.mem_append.mp hb with hb | hb
  · exact hs b hb
  · exact ht b hb

theorem unfoldValue_append {s : Octets} (hs : OneLine s) (rest : Octets) :
    unfoldValue (s ++ rest) = s ++ unfoldValue rest := by
  induction s with
  | nil => rfl
  | cons b s ih =>
      have hcr := (hs b List.mem_cons_self).1
      have hrec := ih fun c hc => hs c (List.mem_cons_of_mem b hc)
      rw [List.cons_append, List.cons_append, ← hrec]
      cases hsrest : s ++ rest with
      | nil => rfl
      | cons c t => exact if_neg fun h => hcr h.1

/-- **The folds of a value are what unfolding takes out.** -/
theorem unfoldValue_writeFolds {first : Octets} (hfirst : OneLine first) {folds : List Octets}
    (hfolds : ∀ s ∈ folds, OneLine s ∧ s.head?.any isBlank = true) :
    unfoldValue (first ++ writeFolds folds) = first ++ folds.flatten := by
  rw [unfoldValue_append hfirst]
  congr 1
  induction folds with
  | nil => rfl
  | cons s folds ih =>
      obtain ⟨hone, hblank⟩ := hfolds s List.mem_cons_self
      have hhead : (s ++ writeFolds folds).head?.any isBlank = true := by
        cases s with
        | nil => cases hblank
        | cons b s => exact hblank
      calc unfoldValue (writeFolds (s :: folds))
          = unfoldValue (cr :: lf :: (s ++ writeFolds folds)) := rfl
        _ = unfoldValue (s ++ writeFolds folds) := if_pos ⟨rfl, rfl, hhead⟩
        _ = s ++ folds.flatten := by
            rw [unfoldValue_append hone, ih fun t ht => hfolds t (List.mem_cons_of_mem s ht)]

theorem Field.WellFormed.plain {name value : Octets}
    (hname : name ≠ [] ∧ ∀ b ∈ name, isFtext b = true) (hvalue : OneLine value) :
    Field.WellFormed { name, value } :=
  ⟨hname, hvalue, fun _ hs => absurd hs List.not_mem_nil⟩

theorem line_append {s : Octets} (hs : OneLine s) (rest : Octets) :
    line (s ++ crlf ++ rest) = some (s, rest) := by
  induction s with
  | nil => rfl
  | cons b s ih =>
      obtain ⟨hcr, hlf⟩ := hs b List.mem_cons_self
      have hrec := ih fun c hc => hs c (List.mem_cons_of_mem b hc)
      rw [List.append_assoc, List.cons_append]
      unfold line
      rw [if_neg hlf, if_neg hcr, ← List.append_assoc, hrec]
      rfl

theorem oneLine_of_ftext {s : Octets} (h : ∀ b ∈ s, isFtext b = true) : OneLine s := by
  intro b hb
  have hf := h b hb
  constructor
  · rintro rfl
    cases hf
  · rintro rfl
    cases hf

theorem unfolded_write {s : Octets} (hs : OneLine s) (hne : s ≠ []) {folds : List Octets}
    (hfolds : ∀ t ∈ folds, OneLine t ∧ t.head?.any isBlank = true) {rest : Octets}
    (hrest : rest.head?.any isBlank = false) {fuel : Nat} (hfuel : folds.length < fuel) :
    unfolded fuel (s ++ writeFolds folds ++ crlf ++ rest) = some (s ++ folds.flatten, rest) := by
  induction folds generalizing s fuel with
  | nil =>
      cases fuel with
      | zero => omega
      | succ fuel =>
          have hline : line (s ++ writeFolds [] ++ crlf ++ rest) = some (s, rest) := by
            rw [show writeFolds [] = [] from rfl, List.append_nil]
            exact line_append hs rest
          unfold unfolded
          simp only [hline, Option.bind_eq_bind, Option.bind_some]
          rw [if_neg (by simp [hrest]), List.flatten_nil, List.append_nil]
          rfl
  | cons t folds ih =>
      cases fuel with
      | zero => omega
      | succ fuel =>
          obtain ⟨ht, hblank⟩ := hfolds t List.mem_cons_self
          have htne : t ≠ [] := by
            rintro rfl
            cases hblank
          have hshape : s ++ writeFolds (t :: folds) ++ crlf ++ rest
              = s ++ crlf ++ (t ++ writeFolds folds ++ crlf ++ rest) := by
            simp [writeFolds]
          have hhead : (t ++ writeFolds folds ++ crlf ++ rest).head?.any isBlank = true := by
            rw [List.append_assoc, List.append_assoc, List.head?_append_of_ne_nil _ htne]
            exact hblank
          have hrec := ih ht htne (fun u hu => hfolds u (List.mem_cons_of_mem t hu))
            (Nat.lt_of_succ_lt_succ hfuel)
          rw [hshape]
          unfold unfolded
          simp only [line_append hs, Option.bind_eq_bind, Option.bind_some]
          rw [if_pos ⟨hne, hhead⟩, hrec]
          rfl

theorem field_write {name value : Octets} (hname : name ≠ [] ∧ ∀ b ∈ name, isFtext b = true) :
    field (name ++ chr ':' :: value) = some (name, value) := by
  have htake : (name ++ chr ':' :: value).takeWhile isFtext = name := by
    rw [List.takeWhile_append_of_pos hname.2, List.takeWhile_cons_of_neg (by decide), List.append_nil]
  unfold field
  simp only [htake, List.drop_left]
  rw [if_neg (by simp [hname.1]), if_pos trivial]

theorem length_writeFolds (folds : List Octets) : folds.length ≤ (writeFolds folds).length := by
  induction folds with
  | nil => exact Nat.le_refl _
  | cons t folds ih =>
      have hsplit : writeFolds (t :: folds) = crlf ++ t ++ writeFolds folds := rfl
      have htwo : crlf.length = 2 := rfl
      rw [hsplit, List.length_append, List.length_append, List.length_cons, htwo]
      omega

theorem fields_write {fs : List Field} (hfs : ∀ f ∈ fs, f.WellFormed) (body : Octets) {fuel : Nat}
    (hfuel : fs.length < fuel) : fields fuel (write fs body) = some (fs.map Field.meant, body) := by
  induction fs generalizing fuel with
  | nil =>
      cases fuel with
      | zero => omega
      | succ fuel => rfl
  | cons f fs ih =>
      cases fuel with
      | zero => omega
      | succ fuel =>
          obtain ⟨hname, hvalue, hfolds⟩ := hfs f List.mem_cons_self
          have hrec := ih (fun g hg => hfs g (List.mem_cons_of_mem f hg)) (Nat.lt_of_succ_lt_succ hfuel)
          obtain ⟨rest, hrest⟩ : ∃ rest, rest = write fs body := ⟨_, rfl⟩
          rw [← hrest] at hrec
          have hshape : write (f :: fs) body
              = (f.name ++ chr ':' :: f.value) ++ writeFolds f.folds ++ crlf ++ rest := by
            rw [hrest]
            simp [write, Field.write]
          -- what follows is a name, or the empty line
          have hnext : rest.head?.any isBlank = false := by
            rw [hrest]
            cases fs with
            | nil => rfl
            | cons g gs =>
                obtain ⟨⟨hne, hall⟩, -, -⟩ := hfs g (by simp)
                obtain ⟨b, name, hg⟩ := List.exists_cons_of_ne_nil hne
                have hb := hall b (hg ▸ List.mem_cons_self)
                have hhead : (write (g :: gs) body).head? = some b := by
                  simp [write, Field.write, hg]
                rw [hhead, Option.any_some]
                unfold isBlank
                rw [Bool.or_eq_false_iff, beq_eq_false_iff_ne, beq_eq_false_iff_ne]
                constructor
                · rintro rfl
                  cases hb
                · rintro rfl
                  cases hb
          have hone : OneLine (f.name ++ chr ':' :: f.value) := by
            refine (oneLine_of_ftext hname.2).append ?_
            intro b hb
            rcases List.mem_cons.mp hb with rfl | hb
            · decide
            · exact hvalue b hb
          have henough : f.folds.length < ((f.name ++ chr ':' :: f.value) ++ writeFolds f.folds ++ crlf
              ++ rest).length + 1 := by
            have hlength := length_writeFolds f.folds
            simp only [List.length_append]
            omega
          have hread := unfolded_write hone (by simp) hfolds hnext henough
          rw [hshape]
          unfold fields
          simp only [hread, Option.bind_eq_bind, Option.bind_some]
          rw [if_neg (by simp), List.append_assoc, List.cons_append, field_write hname]
          simp only [Option.bind_some, hrec]
          rfl

/-- **A message whose fields are well formed reads back**, whatever its body is. -/
theorem read_write {fs : List Field} (hfs : ∀ f ∈ fs, f.WellFormed) (body : Octets) :
    read (write fs body) = some (fs.map Field.meant, body) := by
  refine fields_write hfs body ?_
  have hlength : fs.length ≤ (fs.flatMap Field.write).length := by
    clear hfs
    induction fs with
    | nil => exact Nat.le_refl _
    | cons f fs ih =>
        have hpos : 0 < f.write.length := by
          simp only [Field.write, List.length_append, List.length_cons]
          omega
        rw [List.flatMap_cons, List.length_append, List.length_cons]
        omega
  unfold write
  rw [List.length_append, List.length_append]
  omega

end Rfc5322
