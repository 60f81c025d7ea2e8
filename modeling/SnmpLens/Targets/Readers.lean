import Mathlib.Logic.Function.Basic
import SnmpLens.Lib.Trim

/-!
# The readers of the targets text

`getTargetsAsArray`, `parseTargetLines` and `getTargetLabels` of
`frontend/src/utils/targets.js`. A line of the text is an address, perhaps a label behind `#`, and
`//` in front where the target is disabled. All three take a line apart alike (`readLine`); they
part where an address stands on several lines, and where a line has no address. The list of
addresses keeps every enabled line, the list of entries the first line of an address, and the
labels the last (`agree_iff`).
-/

namespace SnmpLens.Targets

open Trim

abbrev Text := List Char

/-! ## The three readers -/

/-- `line.startsWith('//')`. -/
def disabled (line : Text) : Bool := "//".toList.isPrefixOf line

def getTargetsAsArray (targetsString : Text) : List Text :=
  if targetsString = [] then []
  else
    (((targetsString.splitOn '\n').map (trim jsSpace)).filter
      fun t => 0 < t.length && !disabled t).map
        fun t => trim jsSpace ((t.splitOn '#').headD [])

/-- An entry of `parseTargetLines`. -/
structure TargetLine where
  address : Text
  label : Text
  enabled : Bool
deriving DecidableEq, Repr

/-- The loop of `parseTargetLines`. -/
def parseLoop : List Text → List Text → List TargetLine
  | _, [] => []
  | seen, raw :: raws =>
      let line := trim jsSpace raw
      if line = [] then parseLoop seen raws
      else
        let enabled := !disabled line
        let body := if enabled then line else trim jsSpace (line.drop 2)
        let hash := body.idxOf? '#'
        let address := trim jsSpace (match hash with | none => body | some i => body.take i)
        if address = [] ∨ address ∈ seen then parseLoop seen raws
        else
          let label := match hash with | none => [] | some i => trim jsSpace (body.drop (i + 1))
          { address, label, enabled } :: parseLoop (address :: seen) raws

def parseTargetLines (targetsString : Text) : List TargetLine :=
  if targetsString = [] then [] else parseLoop [] (targetsString.splitOn '\n')

/-- The object `getTargetLabels` fills, by its own properties. -/
abbrev Labels := Text → Option Text

/-- `labels[address] = label`. `__proto__` is no property of its own: a string is not set there. -/
def Labels.assign (labels : Labels) (address label : Text) : Labels :=
  if address = "__proto__".toList then labels else Function.update labels address (some label)

/-- The loop of `getTargetLabels`. -/
def labelLoop : Labels → List Text → Labels
  | labels, [] => labels
  | labels, raw :: raws =>
      let trimmed := trim jsSpace raw
      let line := trim jsSpace (if disabled trimmed then trimmed.drop 2 else trimmed)
      if line = [] then labelLoop labels raws
      else
        match line.idxOf? '#' with
        | none => labelLoop labels raws
        | some hash =>
            let address := trim jsSpace (line.take hash)
            let label := trim jsSpace (line.drop (hash + 1))
            if address ≠ [] ∧ label ≠ [] then labelLoop (labels.assign address label) raws
            else labelLoop labels raws

def getTargetLabels (targetsString : Text) : Labels :=
  if targetsString = [] then fun _ => none
  else labelLoop (fun _ => none) (targetsString.splitOn '\n')

/-! ## A line -/

/-- A line without the mark of a disabled one. -/
def body (line : Text) : Text := if disabled line then trim jsSpace (line.drop 2) else line

/-- What is read of a line that is not blank. -/
def readLine (line : Text) : TargetLine where
  address := trim jsSpace
    (match (body line).idxOf? '#' with | none => body line | some i => (body line).take i)
  label := match (body line).idxOf? '#' with
    | none => []
    | some i => trim jsSpace ((body line).drop (i + 1))
  enabled := !disabled line

/-- The lines of a text that are not blank. -/
def linesOf (raws : List Text) : List TargetLine :=
  ((raws.map (trim jsSpace)).filter (· ≠ [])).map readLine

/-- The lines of a text. -/
def lines (targetsString : Text) : List TargetLine := linesOf (targetsString.splitOn '\n')

theorem linesOf_cons (raw : Text) (raws : List Text) :
    linesOf (raw :: raws) =
      if trim jsSpace raw = [] then linesOf raws
      else readLine (trim jsSpace raw) :: linesOf raws := by
  unfold linesOf
  rw [List.map_cons, List.filter_cons]
  by_cases hblank : trim jsSpace raw = []
  · simp [hblank]
  · simp [hblank]

theorem head_splitOn (s : Text) :
    (s.splitOn '#').headD [] = match s.idxOf? '#' with | none => s | some i => s.take i := by
  induction s with
  | nil => rfl
  | cons c s ih =>
      rw [List.splitOn_cons_eq_if_modifyHead, List.idxOf?_cons]
      by_cases hc : (c == '#') = true
      · rw [if_pos hc, if_pos hc]
        rfl
      · obtain ⟨part, parts, hparts⟩ := List.exists_cons_of_ne_nil (List.splitOn_ne_nil '#' s)
        rw [hparts] at ih
        rw [if_neg hc, if_neg hc, hparts]
        show c :: part = _
        rw [show part = _ from ih]
        cases s.idxOf? '#' with
        | none => rfl
        | some i => rfl

theorem address_readLine {line : Text} (h : disabled line = false) :
    (readLine line).address = trim jsSpace ((line.splitOn '#').headD []) := by
  have hbody : body line = line := by
    unfold body
    rw [h]
    rfl
  rw [head_splitOn]
  unfold readLine
  rw [hbody]

/-- **The list is the addresses of the enabled lines.** -/
theorem getTargetsAsArray_eq (text : Text) :
    getTargetsAsArray text = ((lines text).filter (·.enabled)).map (·.address) := by
  have hraws : ∀ raws : List Text,
      ((raws.map (trim jsSpace)).filter fun t => 0 < t.length && !disabled t).map
        (fun t => trim jsSpace ((t.splitOn '#').headD []))
          = ((linesOf raws).filter (·.enabled)).map (·.address) := by
    intro raws
    induction raws with
    | nil => rfl
    | cons raw raws ih =>
        rw [linesOf_cons, List.map_cons, List.filter_cons]
        by_cases hblank : trim jsSpace raw = []
        · rw [if_pos hblank, hblank]
          exact ih
        · rw [if_neg hblank, List.filter_cons,
            show (readLine (trim jsSpace raw)).enabled = !disabled (trim jsSpace raw) from rfl]
          have hlength : decide (0 < (trim jsSpace raw).length) = true :=
            decide_eq_true (List.length_pos_of_ne_nil hblank)
          rw [hlength, Bool.true_and]
          cases hdisabled : disabled (trim jsSpace raw) with
          | true => exact ih
          | false =>
              show _ :: _ = (readLine (trim jsSpace raw)).address :: _
              rw [address_readLine hdisabled]
              exact congrArg _ ih
  unfold getTargetsAsArray
  by_cases hempty : text = []
  · rw [if_pos hempty, hempty]
    rfl
  · rw [if_neg hempty]
    exact hraws _

/-- The entries of some lines, less the addresses already seen. -/
def entries : List Text → List TargetLine → List TargetLine
  | _, [] => []
  | seen, l :: ls =>
      if l.address = [] ∨ l.address ∈ seen then entries seen ls
      else l :: entries (l.address :: seen) ls

theorem parseLoop_eq (seen : List Text) (raws : List Text) :
    parseLoop seen raws = entries seen (linesOf raws) := by
  induction raws generalizing seen with
  | nil => rfl
  | cons raw raws ih =>
      rw [linesOf_cons]
      unfold parseLoop
      by_cases hblank : trim jsSpace raw = []
      · rw [if_pos hblank, if_pos hblank]
        exact ih seen
      · rw [if_neg hblank, if_neg hblank]
        have hbody : (if (!disabled (trim jsSpace raw)) = true then trim jsSpace raw
            else trim jsSpace ((trim jsSpace raw).drop 2)) = body (trim jsSpace raw) := by
          unfold body
          cases disabled (trim jsSpace raw) <;> rfl
        dsimp only
        rw [hbody, ih, ih]
        rfl

/-- **The entries are the first lines of their addresses.** -/
theorem parseTargetLines_eq (text : Text) : parseTargetLines text = entries [] (lines text) := by
  unfold parseTargetLines
  by_cases hempty : text = []
  · rw [if_pos hempty, hempty]
    rfl
  · rw [if_neg hempty]
    exact parseLoop_eq [] _

/-- The labels some lines leave. -/
def labelsOf (labels : Labels) (ls : List TargetLine) : Labels :=
  ls.foldl (fun labels l =>
    if l.address ≠ [] ∧ l.label ≠ [] then labels.assign l.address l.label else labels) labels

theorem labelLoop_eq (labels : Labels) (raws : List Text) :
    labelLoop labels raws = labelsOf labels (linesOf raws) := by
  induction raws generalizing labels with
  | nil => rfl
  | cons raw raws ih =>
      have hline : trim jsSpace (if disabled (trim jsSpace raw) then (trim jsSpace raw).drop 2
          else trim jsSpace raw) = body (trim jsSpace raw) := by
        unfold body
        cases disabled (trim jsSpace raw) with
        | true => rfl
        | false => exact trim_trim jsSpace raw
      have hempty : ∀ labels : Labels, body (trim jsSpace raw) = [] →
          labelsOf labels (linesOf (raw :: raws)) = labelsOf labels (linesOf raws) := by
        intro labels hbody
        rw [linesOf_cons]
        split
        · rfl
        · have hlabel : (readLine (trim jsSpace raw)).label = [] := by
            unfold readLine
            rw [hbody]
            rfl
          show labelsOf (if _ ∧ (readLine (trim jsSpace raw)).label ≠ [] then _ else _) _ = _
          rw [hlabel, if_neg (by simp)]
      unfold labelLoop
      dsimp only
      rw [hline]
      by_cases hbody : body (trim jsSpace raw) = []
      · rw [if_pos hbody, hempty labels hbody]
        exact ih labels
      · have hblank : ¬ trim jsSpace raw = [] := by
          intro h
          rw [h] at hbody
          exact hbody rfl
        rw [if_neg hbody, linesOf_cons, if_neg hblank]
        show _ = labelsOf (if (readLine (trim jsSpace raw)).address ≠ [] ∧
          (readLine (trim jsSpace raw)).label ≠ [] then _ else _) _
        unfold readLine
        cases (body (trim jsSpace raw)).idxOf? '#' with
        | none =>
            dsimp only
            rw [if_neg (by simp)]
            exact ih labels
        | some i =>
            dsimp only
            split
            · exact ih _
            · exact ih _

/-- **The labels are what the lines leave, one after the other.** -/
theorem getTargetLabels_eq (text : Text) :
    getTargetLabels text = labelsOf (fun _ => none) (lines text) := by
  unfold getTargetLabels
  by_cases hempty : text = []
  · rw [if_pos hempty, hempty]
    rfl
  · rw [if_neg hempty]
    exact labelLoop_eq _ _

/-! ## Entries -/

/-- Every enabled line is the first of its address, and has one, none of them seen before. -/
def Fresh (seen : List Text) (ls : List TargetLine) : Prop :=
  ∀ front l rest, ls = front ++ l :: rest → l.enabled = true →
    l.address ≠ [] ∧ l.address ∉ seen ∧ ∀ l' ∈ front, l'.address ≠ l.address

theorem entries_sublist (seen : List Text) (ls : List TargetLine) :
    (entries seen ls).Sublist ls := by
  induction ls generalizing seen with
  | nil => exact .slnil
  | cons l ls ih =>
      unfold entries
      split
      · exact (ih seen).cons l
      · exact (ih _).cons_cons l

/-- **An entry is the first line of its address.** -/
theorem mem_entries {seen : List Text} {ls : List TargetLine} {e : TargetLine} :
    e ∈ entries seen ls ↔
      e.address ≠ [] ∧ e.address ∉ seen ∧ ls.find? (·.address == e.address) = some e := by
  induction ls generalizing seen with
  | nil => simp [entries]
  | cons l ls ih =>
      unfold entries
      rw [List.find?_cons]
      by_cases hsame : l.address = e.address
      · rw [beq_iff_eq.mpr hsame, hsame]
        dsimp only
        by_cases hskip : e.address = [] ∨ e.address ∈ seen
        · rw [if_pos hskip, ih]
          refine iff_of_false ?_ ?_
          · rintro ⟨hne, hnew, _⟩
            rcases hskip with h | h
            · exact hne h
            · exact hnew h
          · rintro ⟨hne, hnew, _⟩
            rcases hskip with h | h
            · exact hne h
            · exact hnew h
        · rw [if_neg hskip, List.mem_cons, ih]
          obtain ⟨hne, hnew⟩ := not_or.mp hskip
          constructor
          · rintro (rfl | ⟨_, hold, _⟩)
            · exact ⟨hne, hnew, rfl⟩
            · exact absurd List.mem_cons_self hold
          · rintro ⟨_, _, heq⟩
            exact .inl (Option.some.inj heq).symm
      · have hother : (l.address == e.address) = false := beq_eq_false_iff_ne.mpr hsame
        rw [hother]
        dsimp only
        split
        · exact ih
        · rw [List.mem_cons, ih, List.mem_cons, not_or]
          constructor
          · rintro (rfl | ⟨hne, ⟨_, hnew⟩, hfind⟩)
            · exact absurd rfl hsame
            · exact ⟨hne, hnew, hfind⟩
          · rintro ⟨hne, hnew, hfind⟩
            exact .inr ⟨hne, ⟨fun h => hsame h.symm, hnew⟩, hfind⟩

theorem nodup_entries (seen : List Text) (ls : List TargetLine) :
    ((entries seen ls).map (·.address)).Nodup := by
  induction ls generalizing seen with
  | nil => exact List.nodup_nil
  | cons l ls ih =>
      unfold entries
      split
      · exact ih seen
      · rw [List.map_cons, List.nodup_cons]
        refine ⟨?_, ih _⟩
        intro hmem
        obtain ⟨e, he, heq⟩ := List.mem_map.mp hmem
        exact (mem_entries.mp he).2.1 (heq ▸ List.mem_cons_self)

theorem fresh_cons {seen : List Text} {l : TargetLine} {ls : List TargetLine} :
    Fresh seen (l :: ls) ↔ (l.enabled = true → l.address ≠ [] ∧ l.address ∉ seen) ∧
      Fresh (l.address :: seen) ls := by
  constructor
  · intro h
    refine ⟨?_, ?_⟩
    · intro henabled
      obtain ⟨hne, hnew, _⟩ := h [] l ls rfl henabled
      exact ⟨hne, hnew⟩
    · rintro front l' rest rfl henabled
      obtain ⟨hne, hnew, hfirst⟩ := h (l :: front) l' rest rfl henabled
      refine ⟨hne, ?_, fun x hx => hfirst x (List.mem_cons_of_mem l hx)⟩
      rw [List.mem_cons, not_or]
      exact ⟨fun heq => hfirst l List.mem_cons_self heq.symm, hnew⟩
  · rintro ⟨hhead, htail⟩ front l' rest heq henabled
    cases front with
    | nil =>
        obtain ⟨rfl, _⟩ := List.cons.inj heq
        obtain ⟨hne, hnew⟩ := hhead henabled
        exact ⟨hne, hnew, fun x hx => absurd hx List.not_mem_nil⟩
    | cons x front =>
        obtain ⟨rfl, rfl⟩ := List.cons.inj heq
        obtain ⟨hne, hnew, hfirst⟩ := htail front l' rest rfl henabled
        rw [List.mem_cons, not_or] at hnew
        refine ⟨hne, hnew.2, ?_⟩
        intro y hy
        rcases List.mem_cons.mp hy with rfl | hy
        · exact fun h => hnew.1 h.symm
        · exact hfirst y hy

theorem fresh_seen {seen : List Text} {a : Text} (h : a = [] ∨ a ∈ seen)
    {ls : List TargetLine} : Fresh (a :: seen) ls ↔ Fresh seen ls := by
  have hsame : ∀ x : Text, x ≠ [] → (x ∉ a :: seen ↔ x ∉ seen) := by
    intro x hx
    rw [List.mem_cons, not_or]
    refine and_iff_right_of_imp fun hnew => ?_
    rintro rfl
    rcases h with h | h
    · exact hx h
    · exact hnew h
  constructor
  · intro hfresh front l rest heq henabled
    obtain ⟨hne, hnew, hfirst⟩ := hfresh front l rest heq henabled
    exact ⟨hne, (hsame _ hne).mp hnew, hfirst⟩
  · intro hfresh front l rest heq henabled
    obtain ⟨hne, hnew, hfirst⟩ := hfresh front l rest heq henabled
    exact ⟨hne, (hsame _ hne).mpr hnew, hfirst⟩

/-- **The list is the enabled entries exactly where every enabled line is a first one.** -/
theorem enabled_iff (seen : List Text) (ls : List TargetLine) :
    (ls.filter (·.enabled)).map (·.address)
        = ((entries seen ls).filter (·.enabled)).map (·.address) ↔ Fresh seen ls := by
  induction ls generalizing seen with
  | nil =>
      refine iff_of_true rfl ?_
      intro front l rest heq
      exact absurd heq (by simp)
  | cons l ls ih =>
      rw [fresh_cons]
      unfold entries
      by_cases hskip : l.address = [] ∨ l.address ∈ seen
      · rw [if_pos hskip, fresh_seen hskip]
        cases henabled : l.enabled with
        | true =>
            -- one address more than there are entries
            refine iff_of_false ?_ ?_
            · intro heq
              have hle := (((entries_sublist seen ls).filter (·.enabled)).map
                (·.address)).length_le
              rw [← heq, List.filter_cons_of_pos henabled, List.map_cons,
                List.length_cons] at hle
              exact absurd hle (Nat.not_succ_le_self _)
            · rintro ⟨hhead, _⟩
              obtain ⟨hne, hnew⟩ := hhead rfl
              rcases hskip with h | h
              · exact hne h
              · exact hnew h
        | false =>
            rw [List.filter_cons_of_neg (by simp [henabled]), ih]
            exact (and_iff_right fun h => Bool.noConfusion h).symm
      · rw [if_neg hskip]
        have hhead : (l.enabled = true → l.address ≠ [] ∧ l.address ∉ seen) :=
          fun _ => not_or.mp hskip
        rw [and_iff_right hhead, ← ih]
        cases henabled : l.enabled with
        | true =>
            rw [List.filter_cons_of_pos henabled, List.filter_cons_of_pos henabled, List.map_cons,
              List.map_cons, List.cons_inj_right]
        | false =>
            rw [List.filter_cons_of_neg (by simp [henabled]),
              List.filter_cons_of_neg (by simp [henabled])]

/-! ## Labels -/

/-- The label of the last line of an address that has one. -/
def lastLabel (ls : List TargetLine) (address : Text) : Option Text :=
  ((ls.filter fun l => l.address == address && l.label != []).getLast?).map (·.label)

theorem lastLabel_cons (l : TargetLine) (ls : List TargetLine) (address : Text) :
    lastLabel (l :: ls) address = (lastLabel ls address).or
      (if l.address = address ∧ l.label ≠ [] then some l.label else none) := by
  unfold lastLabel
  by_cases hl : l.address = address ∧ l.label ≠ []
  · have hkeep : (l.address == address && l.label != []) = true := by simpa using hl
    rw [if_pos hl, List.filter_cons, if_pos hkeep, List.getLast?_cons]
    cases (ls.filter fun l => l.address == address && l.label != []).getLast? with
    | none => rfl
    | some e => rfl
  · have hdrop : ¬ (l.address == address && l.label != []) = true := by simpa using hl
    rw [if_neg hl, List.filter_cons, if_neg hdrop, Option.or_none]

/-- **The last label of an address stands**, but for the one that is no property. -/
theorem labelsOf_eq {address : Text} (hne : address ≠ []) (labels : Labels)
    (ls : List TargetLine) :
    labelsOf labels ls address =
      if address = "__proto__".toList then labels address
      else (lastLabel ls address).or (labels address) := by
  induction ls generalizing labels with
  | nil => split <;> rfl
  | cons l ls ih =>
      show labelsOf (if l.address ≠ [] ∧ l.label ≠ [] then labels.assign l.address l.label
        else labels) ls address = _
      rw [ih, lastLabel_cons]
      by_cases hproto : address = "__proto__".toList
      · rw [if_pos hproto, if_pos hproto]
        split
        · unfold Labels.assign
          split
          · rfl
          · rename_i hother
            exact Function.update_of_ne (fun h => hother (h.symm.trans hproto)) _ _
        · rfl
      · rw [if_neg hproto, if_neg hproto, Option.or_assoc]
        congr 1
        by_cases hl : l.address = address ∧ l.label ≠ []
        · obtain ⟨rfl, hlabel⟩ := hl
          rw [if_pos ⟨hne, hlabel⟩, if_pos ⟨rfl, hlabel⟩]
          unfold Labels.assign
          rw [if_neg hproto]
          exact Function.update_self _ _ _
        · rw [if_neg hl, Option.none_or]
          split
          · rename_i hset
            have hother : address ≠ l.address := fun h => hl ⟨h.symm, hset.2⟩
            unfold Labels.assign
            split
            · rfl
            · exact Function.update_of_ne hother _ _
          · rfl

/-! ## Where the readers agree -/

/-- The three readers agree. -/
structure Agree (targetsString : Text) : Prop where
  targets : getTargetsAsArray targetsString
    = ((parseTargetLines targetsString).filter (·.enabled)).map (·.address)
  once : (getTargetsAsArray targetsString).Nodup
  named : [] ∉ getTargetsAsArray targetsString
  labelled : ∀ e ∈ parseTargetLines targetsString, getTargetLabels targetsString e.address
    = if e.label = [] then none else some e.label

/-- An enabled line has an address, and no line before it has the same one. -/
def EnabledFirst (ls : List TargetLine) : Prop :=
  ∀ front l rest, ls = front ++ l :: rest → l.enabled = true →
    l.address ≠ [] ∧ ∀ l' ∈ front, l'.address ≠ l.address

/-- The first line of an address is labelled as the last labelled one of it, and where it has no
label no line has one; on `__proto__` there is none. -/
def FirstLabelLast (ls : List TargetLine) : Prop :=
  ∀ e, e.address ≠ [] → ls.find? (·.address == e.address) = some e →
    if e.address = "__proto__".toList then e.label = []
    else lastLabel ls e.address = if e.label = [] then none else some e.label

/-- **The readers agree of a text exactly where** every enabled line is the first of an address,
and an address is labelled last as it is labelled first. -/
theorem agree_iff (targetsString : Text) :
    Agree targetsString ↔
      EnabledFirst (lines targetsString) ∧ FirstLabelLast (lines targetsString) := by
  have hfresh : Fresh [] (lines targetsString) ↔ EnabledFirst (lines targetsString) := by
    simp [Fresh, EnabledFirst]
  have htargets : (getTargetsAsArray targetsString
      = ((parseTargetLines targetsString).filter (·.enabled)).map (·.address)) ↔
        EnabledFirst (lines targetsString) := by
    rw [getTargetsAsArray_eq, parseTargetLines_eq, enabled_iff, hfresh]
  have hlabels : ∀ e : TargetLine, e.address ≠ [] →
      getTargetLabels targetsString e.address
        = if e.address = "__proto__".toList then none
          else lastLabel (lines targetsString) e.address := by
    intro e hne
    rw [getTargetLabels_eq, labelsOf_eq hne, Option.or_none]
  constructor
  · intro h
    refine ⟨htargets.mp h.targets, ?_⟩
    intro e hne hfirst
    have hmem : e ∈ parseTargetLines targetsString := by
      rw [parseTargetLines_eq, mem_entries]
      exact ⟨hne, List.not_mem_nil, hfirst⟩
    have hlabelled := h.labelled e hmem
    rw [hlabels e hne] at hlabelled
    split
    · rename_i hproto
      rw [if_pos hproto] at hlabelled
      by_contra hlabel
      rw [if_neg hlabel] at hlabelled
      cases hlabelled
    · rename_i hproto
      rw [if_neg hproto] at hlabelled
      exact hlabelled
  · rintro ⟨hfirsts, hlast⟩
    have heq := htargets.mpr hfirsts
    refine ⟨heq, ?_, ?_, ?_⟩
    · rw [heq, parseTargetLines_eq]
      exact (nodup_entries [] _).sublist ((List.filter_sublist).map _)
    · rw [heq, parseTargetLines_eq]
      intro hmem
      obtain ⟨e, he, hempty⟩ := List.mem_map.mp hmem
      exact (mem_entries.mp (List.mem_filter.mp he).1).1 hempty
    · intro e he
      rw [parseTargetLines_eq] at he
      obtain ⟨hne, _, hfirst⟩ := mem_entries.mp he
      have hlabel := hlast e hne hfirst
      rw [hlabels e hne]
      split at hlabel
      · rename_i hproto
        rw [if_pos hproto, if_pos hlabel]
      · rename_i hproto
        rw [if_neg hproto]
        exact hlabel

/-! ### A comment on a line of its own, and an address with two labels -/

theorem readers_differ :
    ¬ Agree "# the core\n10.0.0.1".toList ∧ ¬ Agree "10.0.0.1 # a\n//10.0.0.1 # b".toList := by
  constructor
  · intro h
    exact absurd h.named (by decide)
  · intro h
    have hlabel := h.labelled ⟨"10.0.0.1".toList, ['a'], true⟩ (by decide)
    cases hlabel

end SnmpLens.Targets
