import Mathlib.Data.List.Forall2
import SnmpLens.Lib.Rfc4180

/-!
# The cells of an export

`escapeCSV` of `frontend/src/utils/csv.js`, and the way every export puts its cells together. A
cell that a spreadsheet would run as a formula is put behind an apostrophe. Which ones those are
is asked of the first unit of the text, and a spreadsheet asks it of the first one it does not
skip: a tab and a carriage return in front are thought of, a blank and a line feed are not
(`csv_safe_iff`).
-/

namespace SnmpLens.Export

open Utf16 Rfc4180

/-! ## Escaping -/

/-- `FORMULA_LEAD`. -/
def formulaLead (s : Units) : Bool :=
  s.head?.any fun c =>
    c ∈ [unit '=', unit '+', unit '-', unit '@', unit '\t', unit '\r']

def isDigit (c : UInt16) : Bool := unit '0' ≤ c && c ≤ unit '9'

/-- A number without its sign. -/
def unsigned : Units → Units
  | [] => []
  | c :: rest => if c = unit '+' ∨ c = unit '-' then rest else c :: rest

/-- An exponent, or nothing. -/
def exponent : Units → Bool
  | [] => true
  | c :: rest =>
      (c == unit 'e' || c == unit 'E') && unsigned rest ≠ [] && (unsigned rest).all isDigit

/-- `STRICT_NUMBER`. -/
def strictNumber (s : Units) : Bool :=
  let whole := (unsigned s).takeWhile isDigit
  match (unsigned s).dropWhile isDigit with
  | [] => whole ≠ []
  | c :: rest =>
      if c = unit '.' then
        let fraction := rest.takeWhile isDigit
        (whole ≠ [] || fraction ≠ []) && exponent (rest.dropWhile isDigit)
      else whole ≠ [] && exponent (c :: rest)

/-- The text of a value, `null` and `undefined` having none. -/
def textOf (val : Option Units) : Units := val.getD []

/-- The cell a value gets: its text, behind an apostrophe where it could be a formula. -/
def cellOf (val : Option Units) : Units :=
  if formulaLead (textOf val) && !strictNumber (textOf val) then unit '\'' :: textOf val
  else textOf val

def escapeCSV (val : Option Units) : Units :=
  let s := cellOf val
  if s.any fun c => c ∈ [unit '"', unit ',', unit ';', unit '\r', unit '\n'] then
    quote :: (doubled s ++ [quote])
  else s

/-- A table; there is no empty file and no empty record. -/
structure Table where
  rows : List (List (Option Units))
  rows_ne : rows ≠ []
  cells_ne : ∀ row ∈ rows, row ≠ []

/-- What an export writes: its cells with commas between them, its rows with line feeds. -/
def csv (t : Table) : Units := file (t.rows.map fun row => row.map escapeCSV)

/-! ## What a spreadsheet does with a cell -/

/-- What is skipped in front of a cell. -/
def skipped (c : UInt16) : Bool := c ∈ [unit ' ', unit '\t', unit '\r', unit '\n']

/-- What a formula begins with. -/
def leads (c : UInt16) : Bool := c ∈ [unit '=', unit '+', unit '-', unit '@']

/-- What a spreadsheet looks at first is a formula's, and the cell is no number. -/
def Runs (cell : Units) : Prop :=
  (cell.dropWhile skipped).head?.any leads = true ∧ strictNumber cell = false

/-- A cell shows a value by its text, or by its text behind one apostrophe. -/
def Shows (val : Option Units) (cell : Units) : Prop :=
  cell = textOf val ∨ cell = unit '\'' :: textOf val

/-- The export reads back as the table, and nothing in it runs. -/
def Safe (t : Table) : Prop :=
  ∃ cells, read (csv t) = some cells ∧ List.Forall₂ (List.Forall₂ Shows) t.rows cells ∧
    ∀ row ∈ cells, ∀ cell ∈ row, ¬ Runs cell

/-- A blank or a line feed stands in front, and a formula behind what is skipped. -/
def Veiled (s : Units) : Prop :=
  (s.head? = some (unit ' ') ∨ s.head? = some (unit '\n')) ∧
    (s.dropWhile skipped).head?.any leads = true

/-! ## One cell -/

theorem cellOf_shows (val : Option Units) : Shows val (cellOf val) := by
  unfold cellOf
  split
  · exact .inr rfl
  · exact .inl rfl

theorem escapeCSV_field (val : Option Units) : Field (cellOf val) (escapeCSV val) := by
  unfold escapeCSV
  dsimp only
  split
  · exact .quoted _
  · rename_i hplain
    refine .bare fun c hc => ?_
    by_contra hspecial
    refine hplain (List.any_eq_true.mpr ⟨c, hc, ?_⟩)
    simp only [special, comma, quote, cr, lf, Bool.not_eq_false, Bool.or_eq_true,
      beq_iff_eq] at hspecial
    simp only [List.mem_cons, List.not_mem_nil, or_false, decide_eq_true_eq]
    tauto

theorem strictNumber_skipped {c : UInt16} {s : Units} (hc : skipped c = true) :
    strictNumber (c :: s) = false := by
  have hcase : c = unit ' ' ∨ c = unit '\t' ∨ c = unit '\r' ∨ c = unit '\n' := by
    simpa [skipped] using hc
  rcases hcase with rfl | rfl | rfl | rfl <;> rfl

/-- **A cell runs exactly where its formula was veiled.** -/
theorem runs_cellOf (val : Option Units) : Runs (cellOf val) ↔ Veiled (textOf val) := by
  generalize hs : textOf val = s
  unfold cellOf
  rw [hs]
  cases s with
  | nil =>
      refine iff_of_false (fun h => ?_) (fun h => ?_)
      · exact absurd h.1 (by decide)
      · exact absurd h.2 (by decide)
  | cons c s =>
      by_cases hlead : formulaLead (c :: s) = true
      · -- what the escaper looks at is neither a blank nor a line feed
        have hveiled : ¬ Veiled (c :: s) := by
          rintro ⟨hfirst, _⟩
          rcases hfirst with hfirst | hfirst
          · rw [List.head?_cons, Option.some_inj] at hfirst
            subst hfirst
            cases hlead
          · rw [List.head?_cons, Option.some_inj] at hfirst
            subst hfirst
            cases hlead
        refine iff_of_false (fun hruns => ?_) hveiled
        by_cases hnumber : strictNumber (c :: s) = true
        · rw [if_neg (by simp [hnumber])] at hruns
          exact absurd hruns.2 (by simp [hnumber])
        · rw [if_pos (by simp [hlead, hnumber])] at hruns
          have hsafe : ((unit '\'' :: c :: s).dropWhile skipped).head?.any leads = false := rfl
          exact absurd hruns.1 (by simp [hsafe])
      · rw [if_neg (by simp [hlead])]
        simp only [formulaLead, List.head?_cons, Option.any_some, List.mem_cons, List.not_mem_nil,
          or_false, decide_eq_true_eq, not_or] at hlead
        obtain ⟨heq, hplus, hminus, hat, htab, hcr⟩ := hlead
        by_cases hskip : skipped c = true
        · have hfirst : c = unit ' ' ∨ c = unit '\n' := by
            simp only [skipped, List.mem_cons, List.not_mem_nil, or_false, decide_eq_true_eq] at hskip
            tauto
          refine ⟨fun hruns => ⟨?_, hruns.1⟩, fun hveiled => ⟨hveiled.2, strictNumber_skipped hskip⟩⟩
          rcases hfirst with rfl | rfl
          · exact .inl rfl
          · exact .inr rfl
        · have hfirst : (((c :: s).dropWhile skipped).head?.any leads) = false := by
            rw [List.dropWhile_cons_of_neg hskip]
            simp [leads, heq, hplus, hminus, hat]
          refine iff_of_false (fun hruns => ?_) (fun hveiled => ?_)
          · exact absurd hruns.1 (by simp [hfirst])
          · exact absurd hveiled.2 (by simp [hfirst])

/-! ## A whole table -/

theorem escapeCSV_eq_nil {val : Option Units} : escapeCSV val = [] ↔ textOf val = [] := by
  constructor
  · intro hnil
    have hfield := escapeCSV_field val
    rw [hnil] at hfield
    have hcell : cellOf val = [] := by
      generalize cellOf val = cell at hfield
      cases hfield
      rfl
    rcases cellOf_shows val with htext | htext
    · rw [← htext, hcell]
    · rw [hcell] at htext
      cases htext
  · intro hnil
    unfold escapeCSV cellOf
    rw [hnil]
    rfl

/-- The last row is one empty cell, behind another row. -/
def Table.trails (t : Table) : Prop :=
  2 ≤ t.rows.length ∧ ∃ val, t.rows.getLast? = some [val] ∧ textOf val = []

theorem lost_iff (t : Table) : Lost (t.rows.map fun row => row.map escapeCSV) ↔ t.trails := by
  unfold Lost Table.trails
  rw [List.length_map, List.getLast?_map]
  refine and_congr_right fun _ => ?_
  constructor
  · intro hlast
    obtain ⟨row, hrow, hempty⟩ := Option.map_eq_some_iff.mp hlast
    cases row with
    | nil => cases hempty
    | cons val rest =>
        obtain ⟨hval, hrest⟩ := List.cons.inj hempty
        rw [List.map_eq_nil_iff.mp hrest] at hrow
        exact ⟨val, hrow, escapeCSV_eq_nil.mp hval⟩
  · rintro ⟨val, hrow, hempty⟩
    rw [hrow, Option.map_some, List.map_cons, escapeCSV_eq_nil.mpr hempty]
    rfl

/-- **What an export reads back as.** -/
theorem read_csv (t : Table) :
    read (csv t) = some (if Lost (t.rows.map fun row => row.map escapeCSV) then
      (t.rows.map fun row => row.map cellOf).dropLast
      else t.rows.map fun row => row.map cellOf) := by
  refine read_file ?_ (by simpa using t.rows_ne)
  rw [List.forall₂_map_left_iff, List.forall₂_map_right_iff, List.forall₂_same]
  intro row hrow
  refine ⟨by simpa using t.cells_ne row hrow, ?_⟩
  rw [List.forall₂_map_left_iff, List.forall₂_map_right_iff, List.forall₂_same]
  intro val _
  exact escapeCSV_field val

/--
**What an export needs to be safe.**

It reads back as its table with nothing in it that runs exactly where no cell has a formula veiled
by a blank or a line feed, and the table does not end in a row of one empty cell.
-/
theorem csv_safe_iff (t : Table) :
    Safe t ↔ (∀ row ∈ t.rows, ∀ val ∈ row, ¬ Veiled (textOf val)) ∧ ¬ t.trails := by
  have hread := read_csv t
  have hlost := lost_iff t
  constructor
  · rintro ⟨cells, hcells, hshows, hruns⟩
    rw [hread, Option.some_inj] at hcells
    have htrails : ¬ t.trails := by
      intro htrails
      rw [if_pos (hlost.mpr htrails)] at hcells
      have hlength := hshows.length_eq
      rw [← hcells, List.length_dropLast, List.length_map] at hlength
      have htwo := htrails.1
      omega
    rw [if_neg (mt hlost.mp htrails)] at hcells
    refine ⟨fun row hrow val hval hveiled => ?_, htrails⟩
    refine hruns (row.map cellOf) ?_ (cellOf val) (List.mem_map_of_mem hval)
      ((runs_cellOf val).mpr hveiled)
    rw [← hcells]
    exact List.mem_map_of_mem hrow
  · rintro ⟨hveiled, htrails⟩
    rw [if_neg (mt hlost.mp htrails)] at hread
    refine ⟨_, hread, ?_, ?_⟩
    · rw [List.forall₂_map_right_iff, List.forall₂_same]
      intro row _
      rw [List.forall₂_map_right_iff, List.forall₂_same]
      intro val _
      exact cellOf_shows val
    · intro cells hcells cell hcell
      obtain ⟨row, hrow, rfl⟩ := List.mem_map.mp hcells
      obtain ⟨val, hval, rfl⟩ := List.mem_map.mp hcell
      exact mt (runs_cellOf val).mp (hveiled row hrow val hval)

/-- The name a device gives itself: a formula behind a blank. -/
def veiledName : Table where
  rows := [[some (units "IP"), some (units "SysName")],
    [some (units "10.0.0.1"), some (units " =1+1")]]
  rows_ne := by decide
  cells_ne := by decide

/-- **A formula behind a blank is exported as it is.** -/
theorem veiled_formula_runs : ¬ ∀ t : Table, Safe t := by
  intro hall
  obtain ⟨cells, hcells, _, hruns⟩ := hall veiledName
  have hread : read (csv veiledName)
      = some [[units "IP", units "SysName"], [units "10.0.0.1", units " =1+1"]] := by decide
  rw [hread, Option.some_inj] at hcells
  subst hcells
  exact hruns _ (List.mem_cons_of_mem _ List.mem_cons_self) (units " =1+1")
    (List.mem_cons_of_mem _ List.mem_cons_self) (by unfold Runs; decide)

end SnmpLens.Export
