import Mathlib.Data.List.GetD
import SnmpLens.Editor.Window
import SnmpLens.Lib.Search

/-!
# Lines and columns

`frontend/src/mibeditor/metrics.js`. Where an offset is in a text can be told from the text in
front of it, or from where the lines start: the line is the last one that starts at the offset or
in front of it.
-/

namespace SnmpLens.MibEditor

open Utf16

/-- A line and a column, both from 1. -/
structure Place where
  line : Nat
  column : Int
deriving DecidableEq, Repr

/-- The loop of `lineStarts`. -/
def lineStartsFrom (at_ : Nat) : List Units → List Nat
  | [] => []
  | line :: rest => at_ :: lineStartsFrom (at_ + line.length + 1) rest

def lineStarts (lines : List Units) : List Nat := lineStartsFrom 0 lines

def lineColumnFrom (starts : List Nat) (offset : Int) : Place :=
  if offset ≤ 0 ∨ starts.length = 0 then { line := 1, column := 1 }
  else
    -- `(lo + hi + 1) >> 1` halves: an engine's text is far below the 2^30 units where it would wrap
    let lo := Search.lastLoop (fun start : Nat => decide ((start : Int) ≤ offset)) starts
      starts.length 0 (starts.length - 1)
    { line := lo + 1, column := offset - starts.getD lo 0 + 1 }

def lineColumnAt (text : Units) (offset : Int) : Place :=
  let lines := linesOf (text.take (max 0 offset).toNat)
  { line := lines.length, column := (lines.getLastD []).length + 1 }

/-! ## Where an offset is -/

/-- The length of some lines, each with its newline. -/
def width (lines : List Units) : Nat := lines.foldr (fun line n => line.length + 1 + n) 0

theorem lineStartsFrom_append (at_ : Nat) (front back : List Units) :
    lineStartsFrom at_ (front ++ back)
      = lineStartsFrom at_ front ++ lineStartsFrom (at_ + width front) back := by
  induction front generalizing at_ with
  | nil => rfl
  | cons line front ih =>
      have hwidth : width (line :: front) = line.length + 1 + width front := rfl
      have hnext : at_ + line.length + 1 + width front = at_ + width (line :: front) := by omega
      rw [List.cons_append, lineStartsFrom, lineStartsFrom, ih, hnext, List.cons_append]

theorem length_lineStartsFrom (at_ : Nat) (lines : List Units) :
    (lineStartsFrom at_ lines).length = lines.length := by
  induction lines generalizing at_ with
  | nil => rfl
  | cons line rest ih => rw [lineStartsFrom, List.length_cons, List.length_cons, ih]

theorem mem_lineStartsFrom {at_ start : Nat} {lines : List Units}
    (h : start ∈ lineStartsFrom at_ lines) : at_ ≤ start ∧ start < at_ + width lines := by
  induction lines generalizing at_ with
  | nil => cases h
  | cons line rest ih =>
      have hwidth : width (line :: rest) = line.length + 1 + width rest := rfl
      rw [lineStartsFrom] at h
      rcases List.mem_cons.mp h with rfl | h
      · omega
      · have := ih h
        omega

/-- The text up to an offset has the lines in front of one, and the beginning of that one. -/
structure At (lines : List Units) (offset : Nat) (front : List Units) (line : Units)
    (back : List Units) (k : Nat) : Prop where
  split : lines = front ++ line :: back
  offset_eq : offset = width front + k
  within : k ≤ line.length
  upto : ([newline].intercalate lines).take offset = [newline].intercalate (front ++ [line.take k])

/-- **Every offset is in one of the lines, or at its end.** -/
theorem exists_at {lines : List Units} (hne : lines ≠ []) {offset : Nat}
    (h : offset ≤ ([newline].intercalate lines).length) :
    ∃ front line back k, At lines offset front line back k := by
  induction lines generalizing offset with
  | nil => exact absurd rfl hne
  | cons line rest ih =>
      by_cases hin : offset ≤ line.length
      · refine ⟨[], line, rest, offset, rfl, (Nat.zero_add _).symm, hin, ?_⟩
        have hone : [newline].intercalate ([] ++ [line.take offset]) = line.take offset := by
          simp [List.intercalate]
        rw [hone]
        cases rest with
        | nil => simp [List.intercalate]
        | cons next rest =>
            have hjoin : [newline].intercalate (line :: next :: rest)
                = line ++ newline :: [newline].intercalate (next :: rest) := by
              simp [List.intercalate, List.intersperse]
            rw [hjoin, List.take_append_of_le_length hin]
      · cases rest with
        | nil =>
            have hone : [newline].intercalate [line] = line := by simp [List.intercalate]
            rw [hone] at h
            exact absurd h hin
        | cons next rest =>
            have hjoin : ∀ lines : List Units, lines ≠ [] →
                [newline].intercalate (line :: lines)
                  = line ++ newline :: [newline].intercalate lines := by
              intro lines hlines
              obtain ⟨next, rest, rfl⟩ := List.exists_cons_of_ne_nil hlines
              simp [List.intercalate, List.intersperse]
            rw [hjoin _ (List.cons_ne_nil next rest), List.length_append, List.length_cons] at h
            have hrest : offset - line.length - 1 ≤ ([newline].intercalate (next :: rest)).length := by
              omega
            obtain ⟨front, line', back, k, hat⟩ := ih (List.cons_ne_nil next rest) hrest
            refine ⟨line :: front, line', back, k, ?_, ?_, hat.within, ?_⟩
            · rw [hat.split, List.cons_append]
            · have hwidth : width (line :: front) = line.length + 1 + width front := rfl
              have hoffset := hat.offset_eq
              omega
            · rw [hjoin _ (List.cons_ne_nil next rest), List.cons_append,
                hjoin _ (by simp), ← hat.upto, List.take_append]
              have hbehind : offset - line.length = offset - line.length - 1 + 1 := by omega
              rw [List.take_of_length_le (by omega), hbehind, List.take_succ_cons,
                Nat.add_sub_cancel]

theorem At.lineColumnAt_eq {text : Units} {offset : Nat} {front back : List Units} {line : Units}
    {k : Nat} (h : At (linesOf text) offset front line back k) :
    lineColumnAt text offset = { line := front.length + 1, column := k + 1 } := by
  have hlines := newline_linesOf text
  have hjoin : [newline].intercalate (linesOf text) = text := List.intercalate_splitOn newline
  have hupto := h.upto
  rw [hjoin] at hupto
  have hclean : ∀ l ∈ front ++ [line.take k], newline ∉ l := by
    intro l hl
    rw [h.split] at hlines
    rcases List.mem_append.mp hl with hl | hl
    · exact hlines l (List.mem_append_left _ hl)
    · rw [List.mem_singleton.mp hl]
      exact fun hmem => hlines line (by simp) (List.mem_of_mem_take hmem)
  have hread : linesOf (text.take offset) = front ++ [line.take k] := by
    rw [hupto]
    exact List.splitOn_intercalate newline hclean (by simp)
  have hoffset : (max 0 (offset : Int)).toNat = offset := by omega
  unfold lineColumnAt
  dsimp only
  rw [hoffset, hread, List.length_append, List.length_singleton, List.getLastD_concat,
    List.length_take, Nat.min_eq_left h.within]

theorem At.lineColumnFrom_eq {lines : List Units} {offset : Nat} {front back : List Units}
    {line : Units} {k : Nat} (h : At lines offset front line back k) :
    lineColumnFrom (lineStarts lines) offset = { line := front.length + 1, column := k + 1 } := by
  have hoffset := h.offset_eq
  have hwithin := h.within
  have hstarts : lineStarts lines = lineStartsFrom 0 front ++
      width front :: lineStartsFrom (width front + line.length + 1) back := by
    unfold lineStarts
    rw [h.split, lineStartsFrom_append, Nat.zero_add, lineStartsFrom]
  have hlength : (lineStarts lines).length = lines.length := length_lineStartsFrom 0 lines
  have hcount : lines.length = front.length + (back.length + 1) := by
    rw [h.split, List.length_append, List.length_cons]
  unfold lineColumnFrom
  by_cases hzero : offset = 0
  · -- an offset in front of everything is on the first line
    have hfront : front = [] := by
      cases front with
      | nil => rfl
      | cons first front =>
          have hwidth : width (first :: front) = first.length + 1 + width front := rfl
          omega
    rw [if_pos (.inl (by omega)), hfront]
    have hk : k = 0 := by omega
    rw [hk]
    rfl
  · rw [if_neg (by omega)]
    -- the lines up to this one start at the offset or in front of it
    have hcut : Search.CutAt (fun start : Nat => decide ((start : Int) ≤ offset)) (lineStarts lines)
        (front.length + 1) := by
      have hsplit : lineStarts lines = (lineStartsFrom 0 front ++ [width front]) ++
          lineStartsFrom (width front + line.length + 1) back := by
        rw [hstarts, List.append_assoc, List.singleton_append]
      have hn : (lineStartsFrom 0 front ++ [width front]).length = front.length + 1 := by
        rw [List.length_append, length_lineStartsFrom, List.length_singleton]
      rw [hsplit, ← hn]
      refine Search.cutAt_append (fun start hstart => ?_) (fun start hstart => ?_)
      · rw [decide_eq_true_eq]
        rcases List.mem_append.mp hstart with hstart | hstart
        · have := (mem_lineStartsFrom hstart).2
          omega
        · rw [List.mem_singleton.mp hstart]
          omega
      · have := (mem_lineStartsFrom hstart).1
        rw [decide_eq_false_iff_not]
        omega
    have hfound := @Search.lastLoop_eq _ _ _ _ hcut (lineStarts lines).length 0
      ((lineStarts lines).length - 1) (by omega) (Nat.zero_le _) (by omega) (by omega)
    have hstart : (lineStarts lines).getD front.length 0 = width front := by
      rw [hstarts, List.getD_append_right _ _ _ _ (by rw [length_lineStartsFrom]),
        length_lineStartsFrom, Nat.sub_self]
      rfl
    dsimp only
    rw [hfound, hstart]
    congr 1
    omega

/-- **The line index agrees with the plain scan**, at every offset of every text. -/
theorem lineColumnFrom_lineStarts (text : Units) (offset : Nat) (h : offset ≤ text.length) :
    lineColumnFrom (lineStarts (linesOf text)) offset = lineColumnAt text offset := by
  have hjoin : [newline].intercalate (linesOf text) = text := List.intercalate_splitOn newline
  have hne : linesOf text ≠ [] := List.splitOn_ne_nil newline text
  rw [← hjoin] at h
  obtain ⟨front, line, back, k, hat⟩ := exists_at hne h
  rw [hat.lineColumnFrom_eq, hat.lineColumnAt_eq]

theorem lineColumnFrom_lineStarts_end :
    3 ≤ (units "a\n\n").length ∧
      lineColumnFrom (lineStarts (linesOf (units "a\n\n"))) (3 : Nat) = lineColumnAt (units "a\n\n") (3 : Nat) :=
  ⟨by decide, lineColumnFrom_lineStarts (units "a\n\n") 3 (by decide)⟩

example : lineColumnAt (units "a\n\n") 3 = { line := 3, column := 1 } := by decide

end SnmpLens.MibEditor
