import SnmpLens.Lib.Utf16

/-!
# Comma-separated values

RFC 4180, as it is read: records behind one another with a line break between them, the last of
which may have an ending line break or not; fields with commas between them, in quotes or bare. A
line break is CRLF, or LF alone. A bare field has no quote in it, and what stands between quotes
has its quotes doubled.

A text that has a field for every cell reads back as the cells (`read_fields`). One table is lost
in it: where the last record is one empty field and stands for itself, its line break is the ending
one of the record before.
-/

namespace Rfc4180

open Utf16

def comma : UInt16 := unit ','
def quote : UInt16 := unit '"'
def cr : UInt16 := unit '\r'
def lf : UInt16 := unit '\n'

/-! ## Reading -/

/-- Where a reader is. -/
inductive Place where
  /-- In front of a field, -/
  | start
  /-- in a bare field, -/
  | bare
  /-- between quotes, -/
  | quoted
  /-- behind a quote that closes them or is one of two, -/
  | closed
  /-- or behind the first unit of a line break. -/
  | broken
deriving DecidableEq, Repr

/-- A cell in front of the first record. -/
def consCell (cell : Units) : List (List Units) → List (List Units)
  | [] => [[cell]]
  | row :: rows => (cell :: row) :: rows

/-- The records of a text, from a place in it, with what is read of a cell. -/
def records : Place → Units → Units → Option (List (List Units))
  | .quoted, _, [] => none
  | .broken, _, [] => none
  | _, cell, [] => some [[cell]]
  | .quoted, cell, c :: rest =>
      if c = quote then records .closed cell rest else records .quoted (cell ++ [c]) rest
  | place, cell, c :: rest =>
      if c = lf then
        -- the last record may have an ending line break
        if rest = [] then some [[cell]] else (records .start [] rest).map ([cell] :: ·)
      else if place = .broken then none
      else if c = cr then records .broken cell rest
      else if c = comma then (records .start [] rest).map (consCell cell)
      else if c = quote then
        if place = .start then records .quoted [] rest
        else if place = .closed then records .quoted (cell ++ [quote]) rest
        else none
      else if place = .closed then none
      else records .bare (cell ++ [c]) rest

def read (text : Units) : Option (List (List Units)) := records .start [] text

/-! ## Writing -/

/-- What makes quotes needed around a cell. -/
def special (c : UInt16) : Bool := c == comma || c == quote || c == cr || c == lf

/-- A cell with its quotes doubled. -/
def doubled (cell : Units) : Units := cell.flatMap fun c => if c = quote then [quote, quote] else [c]

/-- A field of a cell. -/
inductive Field : Units → Units → Prop
  | bare {cell : Units} : (∀ c ∈ cell, special c = false) → Field cell cell
  | quoted (cell : Units) : Field cell (quote :: (doubled cell ++ [quote]))

/-- The fields of a record. -/
def record (fields : List Units) : Units := List.intercalate [comma] fields

/-- The records of a file. -/
def file (rows : List (List Units)) : Units := List.intercalate [lf] (rows.map record)

/-! ## A field is read -/

/-- What may stand behind a field. -/
def Ends (rest : Units) : Prop := rest = [] ∨ ∃ c rest', rest = c :: rest' ∧ (c = comma ∨ c = lf)

variable {cell text rest : Units}

theorem records_ends (h : Ends rest) (cell : Units) :
    records .closed cell rest = records .start cell rest ∧
      records .bare cell rest = records .start cell rest := by
  rcases h with rfl | ⟨c, rest', rfl, rfl | rfl⟩
  · exact ⟨rfl, rfl⟩
  · exact ⟨rfl, rfl⟩
  · exact ⟨rfl, rfl⟩

theorem records_bare (h : ∀ c ∈ text, special c = false) (hrest : Ends rest) (cell : Units) :
    records .bare cell (text ++ rest) = records .start (cell ++ text) rest := by
  induction text generalizing cell with
  | nil =>
      rw [List.nil_append, List.append_nil]
      exact (records_ends hrest cell).2
  | cons c text ih =>
      have hc := h c List.mem_cons_self
      simp only [special, Bool.or_eq_false_iff, beq_eq_false_iff_ne] at hc
      obtain ⟨⟨⟨hcomma, hquote⟩, hcr⟩, hlf⟩ := hc
      have hnext : records .bare cell (c :: text ++ rest)
          = records .bare (cell ++ [c]) (text ++ rest) := by
        simp [records, hlf, hcr, hcomma, hquote]
      rw [hnext, ih fun d hd => h d (List.mem_cons_of_mem c hd), List.append_assoc]
      rfl

theorem records_quoted (hrest : Ends rest) (cell : Units) :
    records .quoted text (doubled cell ++ quote :: rest) = records .start (text ++ cell) rest := by
  induction cell generalizing text with
  | nil =>
      rw [List.append_nil]
      exact (if_pos rfl).trans (records_ends hrest text).1
  | cons c cell ih =>
      have hsplit : text ++ c :: cell = (text ++ [c]) ++ cell := by simp
      rw [hsplit, ← ih]
      by_cases hc : c = quote
      · subst hc
        rfl
      · have hone : doubled (c :: cell) = c :: doubled cell := by
          simp [doubled, hc]
        rw [hone]
        exact if_neg hc

/-- **A field is read as its cell.** -/
theorem records_field (h : Field cell text) (hrest : Ends rest) :
    records .start [] (text ++ rest) = records .start cell rest := by
  cases h with
  | bare hplain =>
      cases cell with
      | nil => rfl
      | cons c cell =>
          have hc := hplain c List.mem_cons_self
          simp only [special, Bool.or_eq_false_iff, beq_eq_false_iff_ne] at hc
          obtain ⟨⟨⟨hcomma, hquote⟩, hcr⟩, hlf⟩ := hc
          have hnext : records .start [] (c :: cell ++ rest) = records .bare [c] (cell ++ rest) := by
            simp [records, hlf, hcr, hcomma, hquote]
          rw [hnext, records_bare (fun d hd => hplain d (List.mem_cons_of_mem c hd)) hrest]
          rfl
  | quoted =>
      have hopen : records .start [] (quote :: (doubled cell ++ [quote]) ++ rest)
          = records .quoted [] (doubled cell ++ quote :: rest) := by
        rw [List.cons_append, List.append_assoc]
        rfl
      rw [hopen, records_quoted hrest]
      rfl

/-! ## Records are read -/

/-- What is read of a record and what stands behind it. -/
def closeRecord (cells : List Units) : Units → Option (List (List Units))
  | [] => some [cells]
  | _ :: rest => if rest = [] then some [cells] else (read rest).map (cells :: ·)

theorem records_record {cells fields : List Units} (h : List.Forall₂ Field cells fields)
    (hne : cells ≠ []) (hrest : rest = [] ∨ ∃ rest', rest = lf :: rest') :
    records .start [] (record fields ++ rest) = closeRecord cells rest := by
  induction h with
  | nil => exact absurd rfl hne
  | @cons cell field cells fields hfield hfields ih =>
      have hends : Ends rest := by
        rcases hrest with rfl | ⟨rest', rfl⟩
        · exact .inl rfl
        · exact .inr ⟨lf, rest', rfl, .inr rfl⟩
      cases hfields with
      | nil =>
          rw [show record [field] = field from List.append_nil field, records_field hfield hends]
          rcases hrest with rfl | ⟨rest', rfl⟩
          · rfl
          · rfl
      | @cons cell' field' cells fields hfield' hfields =>
          have hrecord : record (field :: field' :: fields) ++ rest
              = field ++ comma :: (record (field' :: fields) ++ rest) := by
            simp [record, List.intercalate]
          rw [hrecord, records_field hfield (.inr ⟨comma, _, rfl, .inl rfl⟩)]
          have hnext : records .start cell (comma :: (record (field' :: fields) ++ rest))
              = (records .start [] (record (field' :: fields) ++ rest)).map (consCell cell) := rfl
          rw [hnext, ih (List.cons_ne_nil _ _)]
          cases rest with
          | nil => rfl
          | cons c rest =>
              unfold closeRecord
              dsimp only
              split
              · rfl
              · rw [Option.map_map]
                rfl

/-- The last record is one empty field, bare, and its line break is the ending one of the record
before. -/
def Lost (rows : List (List Units)) : Prop := 2 ≤ rows.length ∧ rows.getLast? = some [[]]

instance (rows : List (List Units)) : Decidable (Lost rows) := inferInstanceAs (Decidable (_ ∧ _))

theorem record_eq_nil {fields : List Units} (hne : fields ≠ []) : record fields = [] ↔ fields = [[]] := by
  cases fields with
  | nil => exact absurd rfl hne
  | cons field fields =>
      cases fields with
      | nil => simp [record, List.intercalate]
      | cons field' fields => simp [record, List.intercalate]

theorem file_eq_nil {row : List Units} {rows : List (List Units)} (hne : row ≠ []) :
    file (row :: rows) = [] ↔ rows = [] ∧ row = [[]] := by
  cases rows with
  | nil =>
      rw [show file [row] = record row from List.append_nil _, record_eq_nil hne]
      exact (and_iff_right rfl).symm
  | cons row' rows => simp [file, List.intercalate]

/-- **A file reads back**, but for a last record that is lost. -/
theorem read_file {cells rows : List (List Units)}
    (h : List.Forall₂ (fun c r => c ≠ [] ∧ List.Forall₂ Field c r) cells rows) (hne : cells ≠ []) :
    read (file rows) = some (if Lost rows then cells.dropLast else cells) := by
  induction h with
  | nil => exact absurd rfl hne
  | @cons cell row cells rows hrow hrows ih =>
      cases hrows with
      | nil =>
          have hread : records .start [] (record row ++ []) = closeRecord cell [] :=
            records_record hrow.2 hrow.1 (.inl rfl)
          rw [List.append_nil] at hread
          rw [show file [row] = record row from List.append_nil _]
          exact hread
      | @cons cell' row' cells rows hrow' hrows =>
          have hfile : file (row :: row' :: rows) = record row ++ lf :: file (row' :: rows) := by
            simp [file, List.intercalate]
          have hread : records .start [] (record row ++ lf :: file (row' :: rows))
              = closeRecord cell (lf :: file (row' :: rows)) :=
            records_record hrow.2 hrow.1 (.inr ⟨_, rfl⟩)
          rw [hfile]
          refine hread.trans ?_
          unfold closeRecord
          dsimp only
          have hrow'ne : row' ≠ [] := by
            rintro rfl
            cases hrow'.2
            exact hrow'.1 rfl
          by_cases hnil : file (row' :: rows) = []
          · obtain ⟨rfl, rfl⟩ := (file_eq_nil hrow'ne).mp hnil
            cases hrows
            rw [if_pos hnil, if_pos ⟨Nat.le_refl 2, rfl⟩]
            rfl
          · have hlost : Lost (row :: row' :: rows) ↔ Lost (row' :: rows) := by
              rw [file_eq_nil hrow'ne] at hnil
              unfold Lost
              rw [List.getLast?_cons_cons]
              cases rows with
              | nil =>
                  refine iff_of_false (fun hlast => hnil ⟨rfl, ?_⟩) (fun hlast => ?_)
                  · exact Option.some.inj hlast.2
                  · exact absurd hlast.1 (by simp)
              | cons row'' rows => simp
            rw [if_neg hnil, ih (List.cons_ne_nil _ _), Option.map_some]
            by_cases hl : Lost (row' :: rows)
            · rw [if_pos hl, if_pos (hlost.mpr hl)]
              rfl
            · rw [if_neg hl, if_neg (mt hlost.mp hl)]

end Rfc4180
