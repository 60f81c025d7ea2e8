import SnmpLens.Lib.Splice
import SnmpLens.Lib.Utf16

/-!
# The undo history of the editor

`frontend/src/mibeditor/history.js`. A step is the smallest edit between two documents, and a run
of typing or of backspaces is one step. The steps that are applied lead from the base to the
document (`Spine`), and whatever is done to the stack keeps that: an undone step is cut off, a run
grows at its end or at its beginning, and the oldest step of too many is carried out on the base.
-/

namespace SnmpLens.MibEditor

open Utf16 Splice

/-! ## The smallest edit -/

/-- The loop of `exactDiff` from the front. -/
def common : Units → Units → Nat
  | x :: xs, y :: ys => if x = y then common xs ys + 1 else 0
  | _, _ => 0

/-- Its loop from the back, down to where the one in front has stopped. -/
def commonEnd (before after : Units) (start : Nat) : Nat → Nat → Nat × Nat
  | endBefore + 1, endAfter + 1 =>
      if start < endBefore + 1 ∧ start < endAfter + 1 ∧ before[endBefore]? = after[endAfter]? then
        commonEnd before after start endBefore endAfter
      else (endBefore + 1, endAfter + 1)
  | endBefore, endAfter => (endBefore, endAfter)

def exactDiff (before after : Units) : Edit UInt16 :=
  let start := common before after
  let (endBefore, endAfter) := commonEnd before after start before.length after.length
  { at_ := start
    removed := (before.take endBefore).drop start
    inserted := (after.take endAfter).drop start }

/-- `HINT_WINDOW`. -/
def hintWindow : Nat := 256

def hintedDiff (before after : Units) (hint : Nat) : Option (Edit UInt16) :=
  let delta : Int := after.length - before.length
  let lo := min hint (min before.length after.length) - hintWindow
  if before.take lo ≠ after.take lo then none
  else
    let hiBefore := min before.length (hint + hintWindow)
    let hiAfter : Int := hiBefore + delta
    if hiAfter < lo ∨ after.length < hiAfter then none
    else if before.drop hiBefore ≠ after.drop hiAfter.toNat then none
    else
      let d := exactDiff ((before.take hiBefore).drop lo) ((after.take hiAfter.toNat).drop lo)
      some { d with at_ := lo + d.at_ }

def diff (before after : Units) (hint : Int) : Edit UInt16 :=
  if 0 ≤ hint then (hintedDiff before after hint.toNat).getD (exactDiff before after)
  else exactDiff before after

/-! ## The stack -/

/-- `COALESCE_MS`. -/
def coalesceMs : Int := 600

/-- `MAX_DEPTH`. -/
def maxDepth : Nat := 300

/-- `BOUNDARY`: white space, or one of the marks that end a word. -/
def boundary (c : UInt16) : Bool :=
  [9, 10, 11, 12, 13, 32, 0xa0, 0x1680, 0x2028, 0x2029, 0x202f, 0x205f, 0x3000, 0xfeff].contains c ||
    0x2000 ≤ c && c ≤ 0x200a || (units "{}(),;:\"'").contains c

/-- Where the caret is; the unit behind a selection is not looked at. -/
structure Selection where
  start : Int
  end_ : Int
deriving DecidableEq, Repr

/-- A step. -/
structure Entry extends Edit UInt16 where
  selBefore : Option Selection
  selAfter : Option Selection
  time : Int
  atomic : Bool
deriving DecidableEq, Repr

def shouldCoalesce (last : Option Entry) (next : Edit UInt16) (now : Int) (atomic : Bool) : Bool :=
  match last with
  | none => false
  | some last =>
      if atomic || last.atomic then false
      else if coalesceMs < now - last.time then false
      else if last.removed = [] ∧ last.inserted ≠ [] ∧ next.removed = [] ∧ next.inserted ≠ [] then
        next.at_ == last.at_ + last.inserted.length && !last.inserted.getLast?.any boundary
      else if last.inserted = [] ∧ last.removed ≠ [] ∧ next.inserted = [] ∧ next.removed ≠ [] then
        next.at_ + next.removed.length == last.at_ && !next.removed.head?.any boundary
      else false

/-- A run with one more edit at its end, or at its beginning where it takes text out. -/
def Entry.extend (last : Entry) (d : Edit UInt16) (now : Int) (selAfter : Option Selection) :
    Entry :=
  { last with
    at_ := if last.removed = [] then last.at_ else d.at_
    removed := if last.removed = [] then last.removed else d.removed ++ last.removed
    inserted := if last.removed = [] then last.inserted ++ d.inserted else last.inserted
    time := now
    selAfter }

/-- `createHistory`. -/
structure History where
  base : Units
  entries : List Entry := []
  cursor : Nat := 0
deriving DecidableEq, Repr

/-- What `record` is told of an edit. -/
structure Typed where
  after : Units
  selBefore : Option Selection := none
  selAfter : Option Selection := none
  atomic : Bool := false
  now : Int := 0
deriving DecidableEq, Repr

/-- The caret, which is where the edit is. -/
def Typed.hint (ty : Typed) : Int :=
  min ((ty.selBefore.map Selection.start).getD (-1))
    ((ty.selAfter.map Selection.start).getD 9007199254740991)

namespace History

/-- The steps that are left once a new edit lands. -/
def applied (h : History) : List Entry :=
  if h.cursor < h.entries.length then h.entries.take h.cursor else h.entries

/-- A new step, and the oldest one folded into the base where there are too many. -/
def push (h : History) (e : Entry) : History :=
  match h.applied ++ [e] with
  | [] => h
  | oldest :: rest =>
      if maxDepth < (oldest :: rest).length then
        { base := oldest.apply h.base, entries := rest, cursor := rest.length }
      else { h with entries := oldest :: rest, cursor := (oldest :: rest).length }

def record (h : History) (before : Units) (ty : Typed) : History :=
  if before = ty.after then h
  else
    let d := diff before ty.after ty.hint
    if d.removed = [] ∧ d.inserted = [] then h
    else
      match h.applied.getLast? with
      | some last =>
          if shouldCoalesce (some last) d ty.now ty.atomic then
            { h with entries := h.applied.dropLast ++ [last.extend d ty.now ty.selAfter] }
          else
            h.push { d with
              selBefore := ty.selBefore, selAfter := ty.selAfter, time := ty.now, atomic := ty.atomic }
      | none =>
          h.push { d with
            selBefore := ty.selBefore, selAfter := ty.selAfter, time := ty.now, atomic := ty.atomic }

def undo (h : History) (current : Units) : Option (History × Units × Option Selection) :=
  if h.cursor = 0 then none
  else
    (h.entries[h.cursor - 1]?).map fun e =>
      ({ h with cursor := h.cursor - 1 }, e.revert current, e.selBefore)

def redo (h : History) (current : Units) : Option (History × Units × Option Selection) :=
  (h.entries[h.cursor]?).map fun e =>
    ({ h with cursor := h.cursor + 1 }, e.apply current, e.selAfter)

def breakRun (h : History) : History :=
  match h.entries.getLast? with
  | none => h
  | some last => { h with entries := h.entries.dropLast ++ [{ last with atomic := true }] }

end History

/-! ## The diff turns one text into the other -/

section

variable {before after : Units} {start : Nat}

theorem take_common (s t : Units) : s.take (common s t) = t.take (common s t) := by
  induction s generalizing t with
  | nil => cases t <;> rfl
  | cons x xs ih =>
      cases t with
      | nil => rfl
      | cons y ys =>
          unfold common
          split
          · rename_i hxy
            rw [List.take_succ_cons, List.take_succ_cons, hxy, ih ys]
          · rfl

theorem common_le (s t : Units) : common s t ≤ s.length ∧ common s t ≤ t.length := by
  induction s generalizing t with
  | nil => cases t <;> exact ⟨Nat.zero_le _, Nat.zero_le _⟩
  | cons x xs ih =>
      cases t with
      | nil => exact ⟨Nat.zero_le _, Nat.zero_le _⟩
      | cons y ys =>
          unfold common
          split
          · have h := ih ys
            simp only [List.length_cons]
            omega
          · exact ⟨Nat.zero_le _, Nat.zero_le _⟩

/-- What is behind the two ends is the same. -/
structure Tails (before after : Units) (start : Nat) (ends : Nat × Nat) : Prop where
  fromBefore : start ≤ ends.1 ∧ ends.1 ≤ before.length
  fromAfter : start ≤ ends.2 ∧ ends.2 ≤ after.length
  same : before.drop ends.1 = after.drop ends.2

theorem tails_commonEnd (endBefore endAfter : Nat)
    (h : Tails before after start (endBefore, endAfter)) :
    Tails before after start (commonEnd before after start endBefore endAfter) := by
  induction endBefore generalizing endAfter with
  | zero => exact h
  | succ endBefore ih =>
      cases endAfter with
      | zero => exact h
      | succ endAfter =>
          unfold commonEnd
          split
          · rename_i hgo
            obtain ⟨hbefore, hafter, hsame⟩ := hgo
            obtain ⟨hb, ha, htail⟩ := h
            refine ih endAfter ⟨by omega, by omega, ?_⟩
            -- one unit more, which is the same in both
            have hltb : endBefore < before.length := by omega
            have hlta : endAfter < after.length := by omega
            dsimp only at htail ⊢
            rw [List.drop_eq_getElem_cons hltb, List.drop_eq_getElem_cons hlta, htail]
            rw [List.getElem?_eq_getElem hltb, List.getElem?_eq_getElem hlta, Option.some_inj] at hsame
            rw [hsame]
          · exact h

theorem exactDiff_takes (before after : Units) : (exactDiff before after).Takes before after := by
  obtain ⟨hlb, hla⟩ := common_le before after
  have htails := @tails_commonEnd before after (common before after) before.length after.length
    ⟨⟨hlb, Nat.le_refl _⟩, ⟨hla, Nat.le_refl _⟩, by simp⟩
  unfold exactDiff
  dsimp only
  generalize commonEnd before after (common before after) before.length after.length = ends at htails
  obtain ⟨⟨hb, _⟩, ⟨ha, _⟩, hsame⟩ := htails
  refine ⟨before.take (common before after), before.drop ends.1, ?_, ?_, ?_⟩
  · rw [List.length_take, Nat.min_eq_left hlb]
  · exact (Edit.cut_twice hb before).symm
  · rw [take_common, hsame]
    exact (Edit.cut_twice ha after).symm

theorem hintedDiff_takes {hint : Nat} {d : Edit UInt16} (h : hintedDiff before after hint = some d) :
    d.Takes before after := by
  unfold hintedDiff at h
  dsimp only at h
  split at h
  · cases h
  rename_i hfront
  split at h
  · cases h
  rename_i hinside
  split at h
  · cases h
  rename_i hback
  rw [not_not] at hfront hback
  generalize hlo : min hint (min before.length after.length) - hintWindow = lo at h hfront hinside
  generalize hhb : min before.length (hint + hintWindow) = hiBefore at h hback hinside
  generalize hha : ((hiBefore : Int) + ((after.length : Int) - before.length)).toNat = hiAfter
    at h hback
  have hlob : lo ≤ hiBefore := by omega
  have hloa : lo ≤ hiAfter := by omega
  have hlo' : (before.take lo).length = lo := by
    rw [List.length_take]
    omega
  cases h
  have hwide := (exactDiff_takes ((before.take hiBefore).drop lo)
    ((after.take hiAfter).drop lo)).widen (before.take lo) (before.drop hiBefore)
  rw [Edit.cut_twice hlob, hlo'] at hwide
  -- in front of the window and behind it the two texts are the same
  rw [hfront, hback, Edit.cut_twice hloa] at hwide
  exact hwide

/-- **Whatever the hint is, the diff leads from the one text to the other.** -/
theorem diff_takes (before after : Units) (hint : Int) :
    (diff before after hint).Takes before after := by
  unfold diff
  split
  · cases hfast : hintedDiff before after hint.toNat with
    | none => exact exactDiff_takes before after
    | some d => exact hintedDiff_takes hfast
  · exact exactDiff_takes before after

end

/-! ## The stack leads from the base to the document -/

/-- The steps lead from the base to a document, and each began at the document it is noted with. -/
structure Spine (base : Units) (es : List (Edit UInt16)) (begun : List Units) (doc : Units) :
    Prop where
  replays : Replays es base doc
  length : begun.length = es.length
  begun : ∀ i start, begun[i]? = some start → Replays (es.take i) base start

namespace Spine

variable {base doc after : Units} {es : List (Edit UInt16)} {begun : List Units}
  {e last : Edit UInt16}

theorem take (h : Spine base es begun doc) {n : Nat} {current : Units}
    (hcurrent : Replays (es.take n) base current) :
    Spine base (es.take n) (begun.take n) current where
  replays := hcurrent
  length := by rw [List.length_take, List.length_take, h.length]
  begun i start hstart := by
    have hi : i < n := by
      have hlt := (List.getElem?_eq_some_iff.mp hstart).1
      rw [List.length_take] at hlt
      omega
    rw [List.getElem?_take_of_lt hi] at hstart
    rw [List.take_take, Nat.min_eq_left (Nat.le_of_lt hi)]
    exact h.begun i start hstart

/-- One step more. -/
theorem push (h : Spine base es begun doc) (he : e.Takes doc after) :
    Spine base (es ++ [e]) (begun ++ [doc]) after where
  replays := h.replays.append (.single he)
  length := by rw [List.length_append, List.length_append, h.length]; rfl
  begun i start hstart := by
    rcases Nat.lt_or_ge i begun.length with hi | hi
    · rw [List.getElem?_append_left hi] at hstart
      rw [List.take_append_of_le_length (by have := h.length; omega)]
      exact h.begun i start hstart
    · rw [List.getElem?_append_right hi] at hstart
      obtain ⟨hlast, hdoc⟩ := List.getElem?_eq_some_iff.mp hstart
      have hi' : i = es.length := by
        have := h.length
        rw [List.length_singleton] at hlast
        omega
      rw [List.getElem_singleton] at hdoc
      rw [hi', List.take_left, ← hdoc]
      exact h.replays

/-- The last step grows. -/
theorem grow (h : Spine base (es ++ [last]) begun doc)
    (he : ∀ start, last.Takes start doc → e.Takes start after) :
    Spine base (es ++ [e]) begun after where
  replays := by
    obtain ⟨start, hes, hlast⟩ := h.replays.split
    exact hes.append (.single (he start hlast.of_single))
  length := by
    have hlength := h.length
    rw [List.length_append] at hlength ⊢
    exact hlength
  begun i start hstart := by
    have hi : i ≤ es.length := by
      have hlt := (List.getElem?_eq_some_iff.mp hstart).1
      rw [h.length, List.length_append, List.length_singleton] at hlt
      omega
    have hreplays := h.begun i start hstart
    rw [List.take_append_of_le_length hi] at hreplays ⊢
    exact hreplays

/-- The oldest step is carried out on the base. -/
theorem fold (h : Spine base (e :: es) begun doc) : Spine (e.apply base) es begun.tail doc where
  replays := by
    cases h.replays with
    | cons he hrest => rwa [he.apply_eq]
  length := by rw [List.length_tail, h.length, List.length_cons, Nat.add_sub_cancel]
  begun i start hstart := by
    rw [List.getElem?_tail] at hstart
    have hreplays := h.begun (i + 1) start hstart
    rw [List.take_succ_cons] at hreplays
    cases hreplays with
    | cons he hrest => rwa [he.apply_eq]

end Spine

/-- What `shouldCoalesce` says of the two edits. -/
theorem coalesces {last : Entry} {d : Edit UInt16} {now : Int} {atomic : Bool}
    (h : shouldCoalesce (some last) d now atomic = true) :
    last.removed = [] ∧ d.removed = [] ∧ d.at_ = last.at_ + last.inserted.length ∨
      last.inserted = [] ∧ last.removed ≠ [] ∧ d.inserted = [] ∧
        d.at_ + d.removed.length = last.at_ := by
  unfold shouldCoalesce at h
  dsimp only at h
  split at h
  · cases h
  split at h
  · cases h
  split at h
  · rename_i hinserts
    rw [Bool.and_eq_true, beq_iff_eq] at h
    exact .inl ⟨hinserts.1, hinserts.2.2.1, h.1⟩
  split at h
  · rename_i hremoves
    rw [Bool.and_eq_true, beq_iff_eq] at h
    exact .inr ⟨hremoves.1, hremoves.2.1, hremoves.2.2.1, h.1⟩
  · cases h

/-- **A run that grows leads where its last edit leads.** -/
theorem extend_takes {last : Entry} {d : Edit UInt16} {now : Int} {atomic : Bool}
    {selAfter : Option Selection} {start doc after : Units}
    (h : shouldCoalesce (some last) d now atomic = true) (hd : d.Takes doc after)
    (hlast : last.toEdit.Takes start doc) : (last.extend d now selAfter).toEdit.Takes start after := by
  rcases coalesces h with ⟨hlr, hdr, hat⟩ | ⟨hli, hlr, hdi, hat⟩
  · have hmerged := hlast.insert hd hdr hat
    unfold Entry.extend
    rw [if_pos hlr, if_pos hlr, if_pos hlr]
    exact hmerged
  · have hmerged := hlast.erase hd hli hdi hat
    unfold Entry.extend
    rw [if_neg hlr, if_neg hlr, if_neg hlr, hli]
    exact hmerged

namespace History

variable {h : History}

/-- The steps without their times and carets. -/
def edits (h : History) : List (Edit UInt16) := h.entries.map Entry.toEdit

theorem applied_eq (hle : h.cursor ≤ h.entries.length) : h.applied = h.entries.take h.cursor := by
  unfold applied
  split
  · rfl
  · rw [List.take_of_length_le (by omega)]

theorem edits_applied (hle : h.cursor ≤ h.entries.length) :
    h.applied.map Entry.toEdit = h.edits.take h.cursor := by
  rw [applied_eq hle, List.map_take]
  rfl

theorem edits_breakRun (h : History) : h.breakRun.edits = h.edits := by
  unfold breakRun edits
  cases hlast : h.entries.getLast? with
  | none => rfl
  | some last =>
      obtain ⟨init, hinit⟩ := List.getLast?_eq_some_iff.mp hlast
      dsimp only
      rw [hinit, List.dropLast_concat, List.map_append, List.map_append]
      rfl

/-- The stack after a new step. -/
structure Pushed (h' : History) (begun : List Units) (after : Units) : Prop where
  spine : Spine h'.base h'.edits begun after
  cursor : h'.cursor = h'.edits.length
  bounded : h'.edits.length ≤ maxDepth

theorem pushed {e : Entry} {begun : List Units} {doc after : Units}
    (hspine : Spine h.base (h.applied.map Entry.toEdit) begun doc) (he : e.toEdit.Takes doc after)
    (hbound : h.applied.length ≤ maxDepth) :
    Pushed (h.push e) ((begun ++ [doc]).drop ((begun ++ [doc]).length - maxDepth)) after := by
  have hnew := hspine.push he
  have hmap : h.applied.map Entry.toEdit ++ [e.toEdit] = (h.applied ++ [e]).map Entry.toEdit := by
    rw [List.map_append]
    rfl
  have hlen : (h.applied ++ [e]).length = h.applied.length + 1 := List.length_append
  rw [hmap] at hnew
  have hbegun := hnew.length
  rw [List.length_map] at hbegun
  unfold push
  cases hall : h.applied ++ [e] with
  | nil => exact absurd (List.append_eq_nil_iff.mp hall).2 (List.cons_ne_nil e [])
  | cons oldest rest =>
      rw [hall] at hnew hbegun hlen
      dsimp only
      split
      · rename_i hmany
        have hdrop : (begun ++ [doc]).length - maxDepth = 1 := by omega
        rw [hdrop, List.drop_one]
        refine ⟨hnew.fold, (List.length_map Entry.toEdit).symm, ?_⟩
        rw [List.length_cons] at hlen
        have : (rest.map Entry.toEdit).length ≤ maxDepth := by
          rw [List.length_map]
          omega
        exact this
      · rename_i hfew
        have hdrop : (begun ++ [doc]).length - maxDepth = 0 := by omega
        rw [hdrop, List.drop_zero]
        refine ⟨hnew, (List.length_map Entry.toEdit).symm, ?_⟩
        have : ((oldest :: rest).map Entry.toEdit).length ≤ maxDepth := by
          rw [List.length_map]
          omega
        exact this

theorem pushed_extend {last : Entry} {d : Edit UInt16} {ty : Typed} {begun : List Units}
    {doc after : Units} (hspine : Spine h.base (h.applied.map Entry.toEdit) begun doc)
    (hle : h.cursor ≤ h.entries.length) (hbound : h.applied.length ≤ maxDepth)
    (hlast : h.applied.getLast? = some last) (hd : d.Takes doc after)
    (hgrow : shouldCoalesce (some last) d ty.now ty.atomic = true) :
    Pushed { h with entries := h.applied.dropLast ++ [last.extend d ty.now ty.selAfter] } begun
      after := by
  obtain ⟨init, hinit⟩ := List.getLast?_eq_some_iff.mp hlast
  have hcursor : h.cursor = h.applied.length := by
    rw [applied_eq hle, List.length_take, Nat.min_eq_left hle]
  rw [hinit, List.map_append] at hspine
  have hgrown := hspine.grow
    fun start hstart => @extend_takes last d ty.now ty.atomic ty.selAfter start doc after hgrow hd hstart
  rw [hinit, List.length_append, List.length_singleton] at hbound hcursor
  rw [hinit, List.dropLast_concat]
  have hedits : ({ h with entries := init ++ [last.extend d ty.now ty.selAfter] } : History).edits =
      init.map Entry.toEdit ++ [(last.extend d ty.now ty.selAfter).toEdit] := by
    unfold edits
    rw [List.map_append]
    rfl
  refine ⟨?_, ?_, ?_⟩
  · rw [hedits]
    exact hgrown
  · rw [hedits, List.length_append, List.length_map, List.length_singleton]
    exact hcursor
  · rw [hedits, List.length_append, List.length_map, List.length_singleton]
    exact hbound

end History

/-! ## Runs of the editor -/

/-- A document with its history. `begun` are the documents the steps began at. -/
structure Undoable where
  history : History
  current : Units
  begun : List Units := []
deriving DecidableEq, Repr

inductive Key where
  | record (ty : Typed)
  | undo
  | redo
  | breakRun
deriving DecidableEq, Repr

namespace Undoable

/-- `createHistory`. -/
def create (initial : Units) : Undoable where
  history := { base := initial }
  current := initial

/-- Whether an edit makes the open run grow. -/
def grows (w : Undoable) (ty : Typed) : Bool :=
  shouldCoalesce w.history.applied.getLast? (diff w.current ty.after ty.hint) ty.now ty.atomic

/-- What the steps began at, behind an edit: a new one begins at the document. -/
def begunBy (w : Undoable) (ty : Typed) : List Units :=
  let begun := w.begun.take w.history.cursor
  if w.current = ty.after then w.begun
  else if w.grows ty then begun
  else (begun ++ [w.current]).drop ((begun ++ [w.current]).length - maxDepth)

/-- One key; `undo` and `redo` are told the document as it is, and so is `record`. -/
def press (w : Undoable) : Key → Undoable
  | .record ty =>
      { history := w.history.record w.current ty, current := ty.after, begun := w.begunBy ty }
  | .undo =>
      match w.history.undo w.current with
      | none => w
      | some (history, text, _) => { w with history, current := text }
  | .redo =>
      match w.history.redo w.current with
      | none => w
      | some (history, text, _) => { w with history, current := text }
  | .breakRun => { w with history := w.history.breakRun }

/-- The steps lead to a document, and the applied ones to the current one. -/
structure Replayed (w : Undoable) : Prop where
  cursor_le : w.history.cursor ≤ w.history.edits.length
  bounded : w.history.edits.length ≤ maxDepth
  spine : ∃ doc, Spine w.history.base w.history.edits w.begun doc
  here : Replays (w.history.edits.take w.history.cursor) w.history.base w.current

theorem replayed_create (initial : Units) : Replayed (create initial) where
  cursor_le := Nat.le_refl 0
  bounded := Nat.zero_le _
  spine := ⟨initial, .nil initial, rfl, fun _ _ h => by cases h⟩
  here := .nil initial

variable {w : Undoable}

theorem replayed_of_pushed {history : History} {begun : List Units} {after : Units}
    (h : history.Pushed begun after) : Replayed ⟨history, after, begun⟩ where
  cursor_le := Nat.le_of_eq h.cursor
  bounded := h.bounded
  spine := ⟨after, h.spine⟩
  here := by
    dsimp only
    rw [h.cursor, List.take_length]
    exact h.spine.replays

/-- **An edit keeps the replay.** -/
theorem Replayed.record (h : w.Replayed) (ty : Typed) : (w.press (.record ty)).Replayed := by
  have hle : w.history.cursor ≤ w.history.entries.length := by
    have := h.cursor_le
    unfold History.edits at this
    rwa [List.length_map] at this
  have hbound : w.history.applied.length ≤ maxDepth := by
    have := h.bounded
    unfold History.edits at this
    rw [List.length_map] at this
    rw [History.applied_eq hle, List.length_take]
    omega
  obtain ⟨doc, hspine⟩ := h.spine
  have happlied := hspine.take h.here
  rw [← History.edits_applied hle] at happlied
  have hd := diff_takes w.current ty.after ty.hint
  unfold press History.record begunBy grows
  dsimp only
  split
  · rename_i hsame
    rw [← hsame]
    exact h
  rename_i hnew
  -- two texts that are not the same have an edit between them
  rw [if_neg fun hnone => hnew (hd.eq_of_nothing hnone.1 hnone.2)]
  cases hlast : w.history.applied.getLast? with
  | none =>
      have halone : shouldCoalesce none (diff w.current ty.after ty.hint) ty.now ty.atomic ≠ true :=
        Bool.false_ne_true
      rw [if_neg halone]
      exact replayed_of_pushed (History.pushed happlied hd hbound)
  | some last =>
      dsimp only
      split
      · rename_i hgrow
        exact replayed_of_pushed (History.pushed_extend happlied hle hbound hlast hd hgrow)
      · exact replayed_of_pushed (History.pushed happlied hd hbound)

theorem edits_get (h : History) (i : Nat) : h.edits[i]? = h.entries[i]?.map Entry.toEdit :=
  List.getElem?_map

/-- The step in front of the cursor: it began where it is noted to have, and leads to the document. -/
theorem Replayed.step_back (h : w.Replayed) {n : Nat} (hn : w.history.cursor = n + 1) :
    ∃ e start, w.history.entries[n]? = some e ∧ w.begun[n]? = some start ∧
      Replays (w.history.edits.take n) w.history.base start ∧ e.toEdit.Takes start w.current := by
  obtain ⟨doc, hspine⟩ := h.spine
  have hlt : n < w.history.edits.length := by
    have := h.cursor_le
    omega
  have hstart := List.getElem?_eq_getElem (l := w.begun) (i := n) (by rw [hspine.length]; exact hlt)
  have hreplays := hspine.begun n _ hstart
  have hedit := edits_get w.history n
  cases he : w.history.entries[n]? with
  | none =>
      rw [he, List.getElem?_eq_getElem hlt] at hedit
      cases hedit
  | some e =>
      rw [he] at hedit
      refine ⟨e, _, rfl, hstart, hreplays, ?_⟩
      have hhere := h.here
      rw [hn, List.take_add_one, hedit] at hhere
      obtain ⟨start, hfront, hlast⟩ := hhere.split
      rw [hreplays.unique hfront]
      exact hlast.of_single

/-- The step behind the cursor leads from the document to where it leads. -/
theorem Replayed.step_on (h : w.Replayed) {e : Entry}
    (he : w.history.entries[w.history.cursor]? = some e) :
    ∃ after, e.toEdit.Takes w.current after ∧
      Replays (w.history.edits.take (w.history.cursor + 1)) w.history.base after := by
  obtain ⟨doc, hspine⟩ := h.spine
  have hedit := edits_get w.history w.history.cursor
  rw [he] at hedit
  have hall := hspine.replays
  rw [← List.take_append_drop (w.history.cursor + 1) w.history.edits] at hall
  obtain ⟨after, hfront, _⟩ := hall.split
  refine ⟨after, ?_, hfront⟩
  rw [List.take_add_one, hedit] at hfront
  obtain ⟨start, hto, hlast⟩ := hfront.split
  rw [h.here.unique hto]
  exact hlast.of_single

theorem press_undo {n : Nat} {e : Entry} (hn : w.history.cursor = n + 1)
    (he : w.history.entries[n]? = some e) : w.press .undo =
      { w with history := { w.history with cursor := n }, current := e.revert w.current } := by
  unfold press History.undo
  dsimp only
  rw [hn, if_neg (Nat.succ_ne_zero n), Nat.add_sub_cancel, he]
  rfl

theorem press_redo {e : Entry} (he : w.history.entries[w.history.cursor]? = some e) :
    w.press .redo = { w with
      history := { w.history with cursor := w.history.cursor + 1 }, current := e.apply w.current } := by
  unfold press History.redo
  dsimp only
  rw [he]
  rfl

theorem Replayed.undo (h : w.Replayed) : (w.press .undo).Replayed := by
  cases hn : w.history.cursor with
  | zero =>
      have hnone : w.press .undo = w := by
        unfold press History.undo
        dsimp only
        rw [hn, if_pos rfl]
      rw [hnone]
      exact h
  | succ n =>
      obtain ⟨e, start, he, _, hreplays, htakes⟩ := h.step_back hn
      rw [press_undo hn he]
      refine ⟨?_, h.bounded, h.spine, ?_⟩
      · have := h.cursor_le
        change n ≤ w.history.edits.length
        omega
      · change Replays (w.history.edits.take n) w.history.base (e.revert w.current)
        rw [htakes.revert_eq]
        exact hreplays

theorem Replayed.redo (h : w.Replayed) : (w.press .redo).Replayed := by
  cases he : w.history.entries[w.history.cursor]? with
  | none =>
      have hnone : w.press .redo = w := by
        unfold press History.redo
        dsimp only
        rw [he]
        rfl
      rw [hnone]
      exact h
  | some e =>
      obtain ⟨after, htakes, hreplays⟩ := h.step_on he
      have hlt : w.history.cursor < w.history.entries.length := (List.getElem?_eq_some_iff.mp he).1
      rw [press_redo he]
      refine ⟨?_, h.bounded, h.spine, ?_⟩
      · change w.history.cursor + 1 ≤ w.history.edits.length
        unfold History.edits
        rw [List.length_map]
        exact hlt
      · change Replays (w.history.edits.take (w.history.cursor + 1)) w.history.base
          (e.apply w.current)
        rw [htakes.apply_eq]
        exact hreplays

theorem Replayed.breakRun (h : w.Replayed) : (w.press .breakRun).Replayed := by
  have hedits := History.edits_breakRun w.history
  have hrest : w.history.breakRun.base = w.history.base ∧
      w.history.breakRun.cursor = w.history.cursor := by
    unfold History.breakRun
    cases w.history.entries.getLast? <;> exact ⟨rfl, rfl⟩
  obtain ⟨hle, hbounded, hspine, hhere⟩ := h
  unfold press
  refine ⟨?_, ?_, ?_, ?_⟩
  · dsimp only
    rwa [hedits, hrest.2]
  · dsimp only
    rwa [hedits]
  · dsimp only
    rwa [hedits, hrest.1]
  · dsimp only
    rwa [hedits, hrest.1, hrest.2]

/-- A run of keys on a new document. -/
def run (initial : Units) (keys : List Key) : Undoable := keys.foldl press (create initial)

theorem replayed_foldl (keys : List Key) (h : w.Replayed) : (keys.foldl press w).Replayed := by
  induction keys generalizing w with
  | nil => exact h
  | cons key keys ih =>
      rw [List.foldl_cons]
      apply ih
      cases key with
      | record ty => exact h.record ty
      | undo => exact h.undo
      | redo => exact h.redo
      | breakRun => exact h.breakRun

/-- **After every run of edits, undos, redos and breaks the applied steps carried out on the base are
the document, `undo` goes back to the document its step began at and `redo` from there to where
`undo` came from, and no more than `maxDepth` steps are kept.** -/
theorem undo_faithful (initial : Units) (keys : List Key) :
    let w := run initial keys
    replay (w.history.edits.take w.history.cursor) w.history.base = w.current ∧
      (∀ n, w.history.cursor = n + 1 → ∃ undone text selection,
        w.history.undo w.current = some (undone, text, selection) ∧ w.begun[n]? = some text ∧
          replay (undone.edits.take undone.cursor) undone.base = text ∧
          ∃ selection', undone.redo text = some (w.history, w.current, selection')) ∧
      w.history.entries.length ≤ maxDepth ∧
      ∀ before after hint, (diff before after hint).apply before = after := by
  intro w
  have h : w.Replayed := replayed_foldl keys (replayed_create initial)
  refine ⟨h.here.replay_eq, ?_, ?_, fun before after hint => (diff_takes before after hint).apply_eq⟩
  · intro n hn
    obtain ⟨e, start, he, hbegun, hreplays, htakes⟩ := h.step_back hn
    refine ⟨{ w.history with cursor := n }, start, e.selBefore, ?_, hbegun, hreplays.replay_eq,
      e.selAfter, ?_⟩
    · unfold History.undo
      rw [hn, if_neg (Nat.succ_ne_zero n), Nat.add_sub_cancel, he, Option.map_some,
        htakes.revert_eq]
    · unfold History.redo
      dsimp only
      rw [he, Option.map_some, htakes.apply_eq, ← hn]
  · have := h.bounded
    unfold History.edits at this
    rwa [List.length_map] at this

end Undoable

end SnmpLens.MibEditor
