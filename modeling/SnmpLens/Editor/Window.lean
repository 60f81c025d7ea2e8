import Mathlib.Algebra.GroupWithZero.Nat
import SnmpLens.Editor.Tokenize

/-!
# The visible window

`frontend/src/mibeditor/render.js`. Only the lines of the window are painted, and blank lines stand
for the others. What is painted is what the whole text has there where `stringStateAt` finds the
string open that the lines in front have left open (`sound_iff`); a window behind the last line
paints one blank line too many.
-/

namespace SnmpLens.MibEditor

open Utf16 Html Reading

/-- `renderWindow`, which is told the lines of the text. -/
def renderWindow (text : Units) (allLines : List Units) (first last : Int) : Units :=
  if text = [] then []
  else
    let first := max 0 (min first allLines.length)
    let last := min (max last first) allLines.length
    let offset := ((allLines.take first.toNat).map fun line => line.length + 1).sum
    let windowText := [newline].intercalate ((allLines.take last.toNat).drop first.toNat)
    List.replicate first.toNat newline ++ highlight windowText (stringStateAt text offset) ++
      List.replicate (allLines.length - last.toNat) newline

/-! ## Lines -/

def linesOf (text : Units) : List Units := text.splitOn newline

theorem newline_linesOf (text : Units) : ∀ line ∈ linesOf text, newline ∉ line := by
  unfold linesOf
  induction text with
  | nil =>
      intro line hline
      rw [List.splitOn_nil, List.mem_singleton] at hline
      rw [hline]
      exact List.not_mem_nil
  | cons c text ih =>
      obtain ⟨head, tail, hsplit⟩ := List.exists_cons_of_ne_nil (List.splitOn_ne_nil newline text)
      rw [hsplit, List.forall_mem_cons] at ih
      rw [List.splitOn_cons_eq_if_modifyHead, hsplit]
      split
      · rw [List.forall_mem_cons, List.forall_mem_cons]
        exact ⟨List.not_mem_nil, ih⟩
      · rename_i hc
        rw [List.modifyHead_cons, List.forall_mem_cons]
        refine ⟨?_, ih.2⟩
        rw [List.mem_cons, not_or]
        exact ⟨fun heq => hc (beq_iff_eq.mpr heq.symm), ih.1⟩

theorem linesOf_between (m n : Nat) (text : Units) :
    linesOf (List.replicate m newline ++ text ++ List.replicate n newline) =
      List.replicate m [] ++ linesOf text ++ List.replicate n [] := by
  unfold linesOf
  have hbehind : ∀ (n : Nat) (text : Units), (text ++ List.replicate n newline).splitOn newline =
      text.splitOn newline ++ List.replicate n [] := by
    intro n
    induction n with
    | zero =>
        intro text
        rw [List.replicate_zero, List.replicate_zero, List.append_nil, List.append_nil]
    | succ n ih =>
        intro text
        have hblank := ih []
        rw [List.nil_append, List.splitOn_nil] at hblank
        rw [List.replicate_succ, List.splitOn_append_cons_self, hblank]
        rfl
  rw [hbehind]
  congr 1
  induction m with
  | zero => rfl
  | succ m ih =>
      have hfront := @List.splitOn_append_cons_self _ _ _ newline []
        (List.replicate m newline ++ text)
      rw [List.nil_append, List.splitOn_nil, ih] at hfront
      rw [List.replicate_succ, List.cons_append]
      exact hfront

/-! ## The painted lines -/

theorem highlightLines_cons (b : Bool) (line : Units) (lines : List Units) :
    highlightLines b (line :: lines) =
      (highlightLine b line).1 :: highlightLines (highlightLine b line).2 lines := rfl

theorem length_highlightLines (b : Bool) (lines : List Units) :
    (highlightLines b lines).length = lines.length := by
  induction lines generalizing b with
  | nil => rfl
  | cons line lines ih =>
      rw [highlightLines_cons, List.length_cons, List.length_cons, ih]

/-- Whether a string is open behind some lines. -/
def stateBehind (b : Bool) (lines : List Units) : Bool :=
  lines.foldl (fun b line => (highlightLine b line).2) b

theorem highlightLines_append (b : Bool) (front back : List Units) :
    highlightLines b (front ++ back) =
      highlightLines b front ++ highlightLines (stateBehind b front) back := by
  induction front generalizing b with
  | nil => rfl
  | cons line front ih =>
      rw [List.cons_append, highlightLines_cons, highlightLines_cons, ih]
      rfl

variable {lines : List Units}

theorem newline_highlightLines (h : ∀ line ∈ lines, newline ∉ line) (b : Bool) :
    ∀ painted ∈ highlightLines b lines, newline ∉ painted := by
  induction lines generalizing b with
  | nil =>
      intro painted hmem
      cases hmem
  | cons line lines ih =>
      rw [List.forall_mem_cons] at h
      rw [highlightLines_cons, List.forall_mem_cons]
      exact ⟨(painted_highlightLine h.1 b).on_line, ih h.2 _⟩

theorem linesOf_highlight (text : Units) (b : Bool) :
    linesOf (highlight text b) = highlightLines b (linesOf text) := by
  have hne : highlightLines b (linesOf text) ≠ [] := by
    intro hnil
    have hlen := length_highlightLines b (linesOf text)
    rw [hnil, List.length_nil] at hlen
    exact List.splitOn_ne_nil newline text (List.length_eq_zero_iff.mp hlen.symm)
  exact List.splitOn_intercalate newline (newline_highlightLines (newline_linesOf text) b) hne

/-- **The markup of a text shows the text.** -/
theorem textContent_highlight (text : Units) (b : Bool) : textContent (highlight text b) = text := by
  have hlines : ∀ (lines : List Units) (b : Bool), (∀ line ∈ lines, newline ∉ line) →
      textContent ([newline].intercalate (highlightLines b lines)) = [newline].intercalate lines := by
    intro lines
    induction lines with
    | nil =>
        intro b _
        rfl
    | cons line lines ih =>
        intro b h
        rw [List.forall_mem_cons] at h
        have hpainted := painted_highlightLine h.1 b
        cases lines with
        | nil =>
            have hcontent := hpainted.content []
            rw [List.append_nil, textContent_nil, List.append_nil] at hcontent
            have hnone : highlightLines b [line] = [(highlightLine b line).1] := rfl
            rw [hnone, List.intercalate_singleton, List.intercalate_singleton]
            exact hcontent
        | cons more lines =>
            have hrest := ih (highlightLine b line).2 h.2
            rw [highlightLines_cons] at hrest
            rw [highlightLines_cons, highlightLines_cons, List.intercalate_cons_cons,
              List.intercalate_cons_cons, List.append_assoc,
              hpainted.content, List.singleton_append,
              textContent_unit (by decide) (by decide), hrest, List.append_assoc]
            rfl
  unfold highlight
  refine (hlines _ b (newline_linesOf text)).trans ?_
  exact List.intercalate_splitOn newline

/-! ## Whether a string is open at a line -/

/-- Some lines as they stand in a text that goes on behind them. -/
def closedLines (lines : List Units) : Units := lines.flatMap fun line => line ++ [newline]

theorem between_newline (r : Reading) : next true r newline = between r.inString := by
  cases r <;> rfl

theorem stateBehind_reads (h : ∀ line ∈ lines, newline ∉ line) (b : Bool) :
    stateBehind b lines = (read true (between b) (closedLines lines)).inString := by
  induction lines generalizing b with
  | nil => exact (inString_between b).symm
  | cons line lines ih =>
      rw [List.forall_mem_cons] at h
      unfold closedLines at ih ⊢
      rw [List.flatMap_cons, read_append, read_append, read_cons, between_newline,
        ← (painted_highlightLine h.1 b).state]
      exact ih h.2 _

theorem take_offset {n : Nat} (hn : n < lines.length) :
    ([newline].intercalate lines).take ((lines.take n).map fun line => line.length + 1).sum =
      closedLines (lines.take n) := by
  induction n generalizing lines with
  | zero => rfl
  | succ n ih =>
      obtain ⟨line, lines, rfl⟩ := List.exists_cons_of_length_pos (Nat.zero_lt_of_lt hn)
      rw [List.length_cons] at hn
      have hrest := ih (Nat.lt_of_succ_lt_succ hn)
      obtain ⟨more, lines, rfl⟩ := List.exists_cons_of_length_pos
        (Nat.zero_lt_of_lt (Nat.lt_of_succ_lt_succ hn))
      unfold closedLines at hrest ⊢
      rw [List.take_succ_cons, List.map_cons, List.sum_cons, List.flatMap_cons, ← hrest,
        List.intercalate_cons_cons, List.take_append, List.length_append, List.length_singleton,
        Nat.add_sub_cancel_left, List.take_of_length_le]
      rw [List.length_append, List.length_singleton]
      exact Nat.le_add_right _ _

/-- Whether a reader of the text has a string open where a line begins. -/
def openAt (words : Bool) (text : Units) (line : Nat) : Bool :=
  (read words .plain (text.take
    (((linesOf text).take line).map fun line => line.length + 1).sum)).inString

/-! ## What the window shows -/

theorem highlightLines_eq_iff (h : ∀ line ∈ lines, newline ∉ line) (b b' : Bool) :
    highlightLines b lines = highlightLines b' lines ↔ b = b' ∨ ∀ line ∈ lines, line = [] := by
  induction lines generalizing b b' with
  | nil => exact ⟨fun _ => .inr fun _ hmem => absurd hmem List.not_mem_nil, fun _ => rfl⟩
  | cons line lines ih =>
      rw [List.forall_mem_cons] at h
      by_cases hb : b = b'
      · rw [hb]
        exact ⟨fun _ => .inl rfl, fun _ => rfl⟩
      rw [or_iff_right hb, List.forall_mem_cons]
      rw [highlightLines_cons, highlightLines_cons, List.cons.injEq]
      by_cases hline : line = []
      · have hrest := ih h.2 b b'
        rw [or_iff_right hb] at hrest
        rw [hline, and_iff_right rfl]
        have hempty : ∀ b, highlightLine b [] = ([], b) := fun b => rfl
        rw [hempty, hempty, and_iff_right rfl]
        exact hrest
      · refine iff_of_false ?_ fun hall => hline hall.1
        intro hall
        have hne := highlightLine_ne h.1 hline
        cases b <;> cases b'
        · exact hb rfl
        · exact hne hall.1.symm
        · exact hne hall.1
        · exact hb rfl

theorem cut_lines {f t : Nat} (hft : f ≤ t) (lines : List Units) :
    lines.take f ++ (lines.take t).drop f ++ lines.drop t = lines := by
  have hfront : lines.take f = (lines.take t).take f := by rw [List.take_take, Nat.min_eq_left hft]
  rw [hfront, List.take_append_drop, List.take_append_drop]

variable {text : Units}

/-- The lines of a window are painted right where the two readers have the same open, or where there
is nothing in it. -/
theorem window_iff {f t : Nat} (hft : f < t) (ht : t ≤ (linesOf text).length) (b : Bool) :
    highlightLines b (((linesOf text).take t).drop f) =
        ((highlightLines false (linesOf text)).take t).drop f ↔
      b = openAt true text f ∨ ∀ line ∈ ((linesOf text).take t).drop f, line = [] := by
  have hopen : openAt true text f = stateBehind false ((linesOf text).take f) := by
    have hjoin : [newline].intercalate (linesOf text) = text := List.intercalate_splitOn newline
    rw [stateBehind_reads fun line hmem => newline_linesOf text line (List.mem_of_mem_take hmem),
      ← take_offset (Nat.lt_of_lt_of_le hft ht), hjoin]
    rfl
  have hsplit := highlightLines_append false ((linesOf text).take f ++ ((linesOf text).take t).drop f)
    ((linesOf text).drop t)
  rw [cut_lines (Nat.le_of_lt hft), highlightLines_append] at hsplit
  have hfull : ((highlightLines false (linesOf text)).take t).drop f =
      highlightLines (openAt true text f) (((linesOf text).take t).drop f) := by
    rw [hsplit, hopen, List.take_left', List.drop_left']
    · rw [length_highlightLines, List.length_take]
      omega
    · rw [List.length_append, length_highlightLines, length_highlightLines, List.length_drop,
        List.length_take, List.length_take]
      omega
  rw [hfull]
  refine highlightLines_eq_iff (fun line hmem => newline_linesOf text line ?_) _ _
  exact List.mem_of_mem_take (List.mem_of_mem_drop hmem)

/-- The lines of what `renderWindow` gives for a window that has lines. -/
theorem linesOf_window {f t : Nat} (hft : f < t) (ht : t ≤ (linesOf text).length) (b : Bool) :
    linesOf (List.replicate f newline ++
        highlight ([newline].intercalate (((linesOf text).take t).drop f)) b ++
        List.replicate ((linesOf text).length - t) newline) =
      List.replicate f [] ++ highlightLines b (((linesOf text).take t).drop f) ++
        List.replicate ((linesOf text).length - t) [] := by
  have hwindow : linesOf ([newline].intercalate (((linesOf text).take t).drop f)) =
      ((linesOf text).take t).drop f := by
    refine List.splitOn_intercalate newline (fun line hmem => newline_linesOf text line ?_) ?_
    · exact List.mem_of_mem_take (List.mem_of_mem_drop hmem)
    · intro hnil
      have hlen := congrArg List.length hnil
      rw [List.length_drop, List.length_take, List.length_nil] at hlen
      omega
  rw [linesOf_between, linesOf_highlight, hwindow]

/-- Every line of the window is painted as in the whole text, and there are as many lines as the text
has. -/
structure Faithful (text : Units) (first last : Int) : Prop where
  count : (linesOf (renderWindow text (linesOf text) first last)).length = (linesOf text).length
  painted : ∀ l : Nat, l < (linesOf text).length → first ≤ l → l < last →
    (linesOf (renderWindow text (linesOf text) first last))[l]? =
      (linesOf (highlight text false))[l]?

/-- The text is empty, or there is a line in the window, and either a reader that knows no words has
open what one that does has where the window begins, or all of its lines are empty. -/
def Sighted (text : Units) (first last : Int) : Prop :=
  text = [] ∨ (∃ l : Nat, l < (linesOf text).length ∧ first ≤ l ∧ l < last) ∧
    (openAt false text first.toNat = openAt true text first.toNat ∨
      ∀ (l : Nat) (line : Units), first ≤ l → l < last → (linesOf text)[l]? = some line → line = [])

theorem faithful_empty (first last : Int) : Faithful [] first last := by
  refine ⟨rfl, fun l hl _ _ => ?_⟩
  have hone : (linesOf []).length = 1 := rfl
  have hzero : l = 0 := by omega
  rw [hzero]
  rfl

theorem mem_window {f t : Nat} {line : Units} :
    line ∈ ((linesOf text).take t).drop f ↔
      ∃ l, f ≤ l ∧ l < t ∧ (linesOf text)[l]? = some line := by
  rw [List.mem_iff_getElem?]
  constructor
  · intro h
    obtain ⟨i, hi⟩ := h
    rw [List.getElem?_drop] at hi
    have hlt := (List.getElem?_eq_some_iff.mp hi).1
    rw [List.length_take] at hlt
    rw [List.getElem?_take_of_lt (by omega)] at hi
    exact ⟨f + i, by omega, by omega, hi⟩
  · intro h
    obtain ⟨l, hfl, hlt, hl⟩ := h
    refine ⟨l - f, ?_⟩
    rw [List.getElem?_drop, Nat.add_sub_cancel' hfl, List.getElem?_take_of_lt hlt, hl]

/-- Where the clamped window begins, and where it ends. -/
def clampFirst (n : Nat) (first : Int) : Nat := (max 0 (min first n)).toNat

def clampLast (n : Nat) (first last : Int) : Nat := (min (max last (max 0 (min first n))) n).toNat

theorem renderWindow_eq (htext : text ≠ []) (first last : Int) :
    renderWindow text (linesOf text) first last =
      List.replicate (clampFirst (linesOf text).length first) newline ++
        highlight ([newline].intercalate
          (((linesOf text).take (clampLast (linesOf text).length first last)).drop
            (clampFirst (linesOf text).length first)))
          (openAt false text (clampFirst (linesOf text).length first)) ++
        List.replicate ((linesOf text).length - clampLast (linesOf text).length first last)
          newline := by
  unfold renderWindow
  rw [if_neg htext]
  dsimp only
  rw [stringStateAt_reads]
  rfl

theorem faithful_of_lines (htext : text ≠ []) {first last : Int} {f t : Nat}
    (hf : clampFirst (linesOf text).length first = f)
    (ht : clampLast (linesOf text).length first last = t) (hft : f < t) :
    Faithful text first last ↔ openAt false text f = openAt true text f ∨
      ∀ line ∈ ((linesOf text).take t).drop f, line = [] := by
  have htn : t ≤ (linesOf text).length := by
    unfold clampLast at ht
    omega
  have hlines : ∀ l : Nat, l < (linesOf text).length → (first ≤ l ∧ (l : Int) < last ↔ f ≤ l ∧ l < t) := by
    intro l hl
    unfold clampFirst at hf
    unfold clampLast at ht
    omega
  have hrender := congrArg linesOf (renderWindow_eq htext first last)
  rw [hf, ht, linesOf_window hft htn] at hrender
  -- a line of the window is the one that many lines behind its beginning
  have hget : ∀ l, f ≤ l → l < t →
      (linesOf (renderWindow text (linesOf text) first last))[l]? =
        (highlightLines (openAt false text f) (((linesOf text).take t).drop f))[l - f]? := by
    intro l hfl hlt
    have hinside : l - f < (highlightLines (openAt false text f)
        (((linesOf text).take t).drop f)).length := by
      rw [length_highlightLines, List.length_drop, List.length_take]
      omega
    rw [hrender, List.append_assoc, List.getElem?_append_right (by rw [List.length_replicate]; exact hfl),
      List.length_replicate, List.getElem?_append_left hinside]
  have hfull : ∀ l, f ≤ l → l < t → (linesOf (highlight text false))[l]? =
      (((highlightLines false (linesOf text)).take t).drop f)[l - f]? := by
    intro l hfl hlt
    rw [linesOf_highlight, List.getElem?_drop, Nat.add_sub_cancel' hfl, List.getElem?_take_of_lt hlt]
  rw [← window_iff hft htn]
  constructor
  · intro h
    apply List.ext_getElem?
    intro i
    rcases Nat.lt_or_ge (f + i) t with hlt | hge
    · have hpainted := h.painted (f + i) (by omega)
        ((hlines (f + i) (by omega)).mpr ⟨Nat.le_add_right f i, hlt⟩).1
        ((hlines (f + i) (by omega)).mpr ⟨Nat.le_add_right f i, hlt⟩).2
      rw [hget _ (Nat.le_add_right f i) hlt, hfull _ (Nat.le_add_right f i) hlt,
        Nat.add_sub_cancel_left] at hpainted
      exact hpainted
    · rw [List.getElem?_eq_none, List.getElem?_eq_none]
      · rw [List.length_drop, List.length_take, length_highlightLines]
        omega
      · rw [length_highlightLines, List.length_drop, List.length_take]
        omega
  · intro h
    refine ⟨?_, ?_⟩
    · rw [hrender, List.length_append, List.length_append, List.length_replicate,
        List.length_replicate, length_highlightLines, List.length_drop, List.length_take]
      omega
    · intro l hl hfirst hlast
      obtain ⟨hfl, hlt⟩ := (hlines l hl).mp ⟨hfirst, hlast⟩
      rw [hget l hfl hlt, hfull l hfl hlt, h]

/-- **A window shows what the whole text shows there, with as many lines, exactly where it is
sighted.** -/
theorem faithful_iff_sighted (text : Units) (first last : Int) :
    Faithful text first last ↔ Sighted text first last := by
  by_cases htext : text = []
  · rw [htext]
    exact ⟨fun _ => .inl rfl, fun _ => faithful_empty first last⟩
  unfold Sighted
  rw [or_iff_right htext]
  generalize hf : clampFirst (linesOf text).length first = f
  generalize ht : clampLast (linesOf text).length first last = t
  by_cases hft : f < t
  · have hfirst : first.toNat = f := by
      unfold clampFirst at hf
      unfold clampLast at ht
      omega
    have hsome : ∃ l : Nat, l < (linesOf text).length ∧ first ≤ l ∧ l < last := by
      unfold clampFirst at hf
      unfold clampLast at ht
      exact ⟨f, by omega⟩
    rw [faithful_of_lines htext hf ht hft, hfirst, and_iff_right hsome]
    refine or_congr_right ?_
    constructor
    · intro hall l line hle hlt hl
      have hlen := (List.getElem?_eq_some_iff.mp hl).1
      refine hall line (mem_window.mpr ⟨l, ?_, ?_, hl⟩)
      · omega
      · unfold clampFirst at hf
        unfold clampLast at ht
        omega
    · intro hall line hline
      obtain ⟨l, hfl, hlt, hl⟩ := mem_window.mp hline
      have hlen := (List.getElem?_eq_some_iff.mp hl).1
      refine hall l line ?_ ?_ hl
      · omega
      · unfold clampFirst at hf
        unfold clampLast at ht
        omega
  · refine iff_of_false ?_ ?_
    · intro h
      have hcount := h.count
      have heq : f = t := by
        unfold clampFirst at hf
        unfold clampLast at ht
        omega
      have htn : t ≤ (linesOf text).length := by
        unfold clampLast at ht
        omega
      have hempty : ((linesOf text).take t).drop f = [] := by
        rw [List.drop_eq_nil_iff, List.length_take]
        omega
      rw [renderWindow_eq htext, hf, ht, hempty, linesOf_between, linesOf_highlight,
        List.length_append, List.length_append, List.length_replicate, List.length_replicate,
        length_highlightLines] at hcount
      have hone : (linesOf ([newline].intercalate [])).length = 1 := rfl
      omega
    · intro h
      obtain ⟨l, hl, hfirst, hlast⟩ := h.1
      unfold clampFirst at hf
      unfold clampLast at ht
      omega

/-- **For every text and window: the markup shows the text, and the window is faithful exactly where
it is sighted.** -/
theorem window_highlighted (text : Units) (first last : Int) :
    (∀ b, textContent (highlight text b) = text) ∧
      (Faithful text first last ↔ Sighted text first last) :=
  ⟨textContent_highlight text, faithful_iff_sighted text first last⟩

/-- **Two hyphens in a word hide the quote behind them, and a window behind the last line is one line
too long.** -/
theorem hyphenated_word_hides_string :
    ¬ Faithful (units "a--\"\nx") 1 2 ∧ ¬ Faithful (units "x") 5 6 := by
  constructor
  · intro h
    have hpainted := h.painted 1 (by decide) (by decide) (by decide)
    cases hpainted
  · intro h
    exact absurd h.count (by decide)

end SnmpLens.MibEditor
