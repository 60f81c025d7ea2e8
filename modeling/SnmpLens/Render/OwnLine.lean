import SnmpLens.Lib.Lines
import SnmpLens.Render.Template

/-!
# Lines that a block tag takes with it

A block tag that stands alone on its line goes with the line: that is a statement about
the source, and `settle` below says what is then left of the literal text. `applyOwnLine`
decides it token by token instead, and cuts the literal behind a tag before it looks at
the next one. Of two such tags on two lines, one below the other, the second finds the
line break in front of it gone, and keeps its line.

So the marks the program sets are the tags that are alone on their line, less every one
whose line break was taken by the one above it (`marks`), and the two agree about all
texts exactly when no such pair can be told by what is left of it (`cutWith_eq_iff`).
-/

namespace SnmpLens.Render

open Utf8 Lines

def opener : Octets := octets "\x7b\x7b"

def closer : Octets := octets "\x7d\x7d"

/-! ## Sources cut into tokens -/

/-- A tag as it stands in the source. -/
structure IsTag (t : Token) : Prop where
  kind : t.kind ≠ .literal
  text : ∃ inner, t.text = opener ++ inner ++ closer ∧ parseTag inner t.text = some t

/-- Literal text without the beginning of a tag, and tags; `free` where literal text can come next. -/
inductive Cut : Bool → List Token → Prop where
  | nil {free : Bool} : Cut free []
  | literal {t : Token} {ts : List Token} (hk : t.kind = .literal) (hne : t.text ≠ [])
      (hopen : ¬ opener <:+: t.text) (h : Cut false ts) : Cut true (t :: ts)
  | tag {free : Bool} {t : Token} {ts : List Token} (ht : IsTag t) (h : Cut true ts) :
      Cut free (t :: ts)

variable {ts : List Token}

theorem Cut.free {free : Bool} (h : Cut free ts) : Cut true ts := by
  cases h with
  | nil => exact .nil
  | literal hk hne hopen h => exact .literal hk hne hopen h
  | tag ht h => exact .tag ht h

/-- The same, but whatever the literal text is: so the scanner cuts any source. -/
inductive Loose : Bool → List Token → Prop where
  | nil {free : Bool} : Loose free []
  | literal {t : Token} {ts : List Token} (hk : t.kind = .literal) (hne : t.text ≠ [])
      (h : Loose false ts) : Loose true (t :: ts)
  | tag {free : Bool} {t : Token} {ts : List Token} (ht : IsTag t) (h : Loose true ts) :
      Loose free (t :: ts)

theorem Cut.loose {free : Bool} (h : Cut free ts) : Loose free ts := by
  induction h with
  | nil => exact .nil
  | literal hk hne _ _ ih => exact .literal hk hne ih
  | tag ht _ ih => exact .tag ht ih

theorem Loose.free {free : Bool} (h : Loose free ts) : Loose true ts := by
  cases h with
  | nil => exact .nil
  | literal hk hne h => exact .literal hk hne h
  | tag ht h => exact .tag ht h

/-- The first of some tokens, and what can come behind it. -/
theorem Loose.cons {free : Bool} {t : Token} (h : Loose free (t :: ts)) :
    (t.kind = .literal → free = true) ∧ (t.kind ≠ .literal → IsTag t)
      ∧ Loose (decide (t.kind ≠ .literal)) ts := by
  cases h with
  | literal hk hne h =>
      refine ⟨fun _ => rfl, fun hnot => absurd hk hnot, ?_⟩
      rw [decide_eq_false (not_not_intro hk)]
      exact h
  | tag ht h =>
      refine ⟨fun hk => absurd hk ht.kind, fun _ => ht, ?_⟩
      rw [decide_eq_true ht.kind]
      exact h

/-- The source of some tokens. -/
def source (ts : List Token) : Octets := ts.flatMap Token.text

theorem source_cons (t : Token) (ts : List Token) : source (t :: ts) = t.text ++ source ts := rfl

/-! ## What the source says -/

/-- A block tag with nothing else on its line. -/
def lone (before : Octets) (t : Token) (behind : Octets) : Bool :=
  t.isBlock && (last newline before).all inline && (first newline behind).all inline

/-- Which tokens are alone on their line. -/
def lones : Octets → List Token → List Bool
  | _, [] => []
  | before, t :: ts => lone before t (source ts) :: lones (before ++ t.text) ts

/-- Literal text next to lines that are taken out. -/
def cut (front back : Bool) (s : Octets) : Octets :=
  let s := if front then dropFirst newline s else s
  if back then dropLast newline s else s

/-- The literal text between two tags that are marked or not. -/
def cutToken (front back : Bool) (t : Token) : Token :=
  if t.kind = .literal then { t with text := cut front back t.text } else t

/-- The tokens, the lines of the marked tags taken out. -/
def cutWith : Bool → List Bool → List Token → List Token
  | front, m :: ms, t :: ts => cutToken front (ms.head?.getD false) t :: cutWith m ms ts
  | _, _, _ => []

/-- **What is left of a template** when every block tag that is alone on its line is taken out
with it. -/
def settle (ts : List Token) : List Token := cutWith false (lones [] ts) ts

/-! ## What the program marks -/

/-- The line break in front of the next tag went with the tag before. -/
def swallows (front : Bool) (t : Token) : Bool :=
  t.kind = .literal && front && t.text.count newline == 1

/-- The tags that are marked, of those that are alone on their line. -/
def marks : Bool → Bool → List Bool → List Token → List Bool
  | swallowed, front, l :: ls, t :: ts =>
      let m := l && !swallowed
      m :: marks (swallows front t) m ls ts
  | _, _, _, _ => []

/-- A token without its mark. -/
def plain (t : Token) : Token := { t with ownLine := false }

variable {t : Token} {ts : List Token} {before s : Octets}

theorem inline_newline : inline newline = false := by decide

theorem not_inline_opener (s : Octets) : (first newline (opener ++ s)).all inline = false := rfl

theorem not_inline_closer (s : Octets) : (last newline (s ++ closer)).all inline = false := by
  have hmem : newline ∉ closer := by decide
  rw [last_append_of_not_mem hmem, List.all_append]
  exact Bool.and_false _

theorem first_source (h : IsTag t) (s : Octets) : (first newline (t.text ++ s)).all inline = false := by
  obtain ⟨inner, htext, _⟩ := h.text
  rw [htext, List.append_assoc, List.append_assoc]
  exact not_inline_opener _

theorem last_source (h : IsTag t) (s : Octets) : (last newline (s ++ t.text)).all inline = false := by
  obtain ⟨inner, htext, _⟩ := h.text
  rw [htext, ← List.append_assoc]
  exact not_inline_closer _

/-- Looking at the next token is looking at the rest of the line. -/
theorem leading_eq {free : Bool} (h : Loose free ts) :
    leadingBlankToNewline ts = (first newline (source ts)).all inline := by
  cases h with
  | nil => rfl
  | tag ht h =>
      have hk := ht.kind
      rw [source_cons, first_source ht]
      simp [leadingBlankToNewline, hk]
  | @literal t ts hk hne h =>
      have hcode : leadingBlankToNewline (t :: ts)
          = ((first newline t.text).all inline && (t.text.contains newline || ts.isEmpty)) := by
        simp [leadingBlankToNewline, hk, first]
      rw [hcode, source_cons]
      by_cases hnl : newline ∈ t.text
      · rw [first_append_of_mem hnl, List.contains_iff_mem.mpr hnl, Bool.true_or, Bool.and_true]
      · have hno : t.text.contains newline = false := by
          rw [← Bool.not_eq_true, List.contains_iff_mem]
          exact hnl
        rw [first_append_of_not_mem hnl, hno, Bool.false_or, List.all_append, first_of_not_mem hnl]
        cases h with
        | nil => rfl
        | tag ht h =>
            rw [source_cons, first_source ht]
            rfl

/-- What stands before a literal: nothing, or the end of a tag. -/
def Fronted (ps : List Token) (before : Octets) : Prop :=
  (ps = [] ∧ before = []) ∨ (ps ≠ [] ∧ ∃ s, before = s ++ closer)

theorem contains_eq (s : Octets) : s.contains newline = decide (newline ∈ s) := by
  by_cases h : newline ∈ s
  · rw [List.contains_iff_mem.mpr h, decide_eq_true h]
  · rw [decide_eq_false h, ← Bool.not_eq_true, List.contains_iff_mem]
    exact h

variable {ps : List Token}

/-- Looking at the token before is looking at the line so far. -/
theorem trailing_eq {p : Token} (hp : p.kind ≠ .literal → IsTag p)
    (hbefore : p.kind = .literal → Fronted ps before) :
    trailingBlankToNewline (p :: ps) = (last newline (before ++ p.text)).all inline := by
  by_cases hk : p.kind = .literal
  · have hcode : trailingBlankToNewline (p :: ps)
        = ((last newline p.text).all inline && (decide (newline ∈ p.text) || ps.isEmpty)) := by
      rw [← contains_eq]
      simp [trailingBlankToNewline, hk, last]
    rw [hcode]
    by_cases hnl : newline ∈ p.text
    · rw [last_append_of_mem hnl, decide_eq_true hnl, Bool.true_or, Bool.and_true]
    · rw [last_append_of_not_mem hnl, decide_eq_false hnl, Bool.false_or, List.all_append,
        last_of_not_mem hnl]
      rcases hbefore hk with ⟨rfl, rfl⟩ | ⟨hps, s, rfl⟩
      · exact Bool.and_comm _ _
      · rw [not_inline_closer, Bool.false_and, List.isEmpty_eq_false_iff.mpr hps, Bool.and_false]
  · rw [last_source (hp hk)]
    simp [trailingBlankToNewline, hk]

variable {front : Bool}

/-- And where the tag before the literal took the rest of its line, only unless that was all
that the literal had of line breaks. -/
theorem trailing_cutToken {p : Token} (hp : p.kind ≠ .literal → IsTag p)
    (hbefore : p.kind = .literal → Fronted ps before)
    (hfront : front = true → p.kind = .literal ∧ ps ≠ [] ∧ newline ∈ p.text) :
    trailingBlankToNewline (cutToken front false p :: ps)
      = ((last newline (before ++ p.text)).all inline && !swallows front p) := by
  cases front with
  | false =>
      have hcut : cutToken false false p = p := by
        unfold cutToken
        split <;> rfl
      have hsw : swallows false p = false := by simp [swallows]
      rw [hcut, hsw, trailing_eq hp hbefore, Bool.not_false, Bool.and_true]
  | true =>
      obtain ⟨hk, hps, hnl⟩ := hfront rfl
      have hcut : cutToken true false p = { p with text := dropFirst newline p.text } := by
        rw [cutToken, if_pos hk]
        rfl
      have hcode : trailingBlankToNewline (cutToken true false p :: ps)
          = ((last newline (dropFirst newline p.text)).all inline
            && decide (newline ∈ dropFirst newline p.text)) := by
        rw [← contains_eq, hcut]
        simp [trailingBlankToNewline, hk, last, List.isEmpty_eq_false_iff.mpr hps]
      have hcount := count_dropFirst hnl
      rw [hcode, last_append_of_mem hnl]
      by_cases hmore : newline ∈ dropFirst newline p.text
      · have hsw : swallows true p = false := by
          have hpos := List.count_pos_iff.mpr hmore
          simp only [swallows, Bool.and_eq_false_iff, beq_eq_false_iff_ne]
          right
          omega
        rw [last_dropFirst hmore, decide_eq_true hmore, hsw, Bool.not_false]
      · have hsw : swallows true p = true := by
          have hzero := List.count_eq_zero.mpr hmore
          simp only [swallows, hk, decide_true, Bool.and_self, Bool.true_and, beq_iff_eq]
          omega
        rw [decide_eq_false hmore, hsw, Bool.not_true, Bool.and_false, Bool.and_false]

/-! ## What the program cuts -/

theorem trimLeadingLine_eq (h : newline ∈ s ∨ s.all inline = true) :
    trimLeadingLine s = dropFirst newline s := by
  unfold trimLeadingLine
  rw [contains_eq]
  by_cases hnl : newline ∈ s
  · rw [if_pos (decide_eq_true hnl)]
    rfl
  · rw [if_neg (by simpa using hnl), dropFirst_of_not_mem hnl]
    exact List.dropWhile_eq_nil_iff.mpr (List.all_eq_true.mp (h.resolve_left hnl))

theorem trimTrailing_eq (h : (last newline s).all inline = true) :
    trimTrailingInlineSpace s = dropLast newline s := by
  unfold trimTrailingInlineSpace
  by_cases hnl : newline ∈ s
  · obtain ⟨a, b, rfl, hb⟩ := exists_last hnl
    rw [last_eq hb] at h
    rw [dropLast_eq hb]
    have hsplit : a ++ newline :: b = (a ++ [newline]) ++ b := by
      rw [List.append_assoc, List.singleton_append]
    rw [hsplit, List.rdropWhile, List.reverse_append,
      List.dropWhile_append_of_pos (fun x hx => List.all_eq_true.mp h x (List.mem_reverse.mp hx)),
      List.reverse_append, List.reverse_singleton, List.singleton_append,
      List.dropWhile_cons_of_neg (by rw [inline_newline]; exact Bool.false_ne_true)]
    simp
  · rw [last_of_not_mem hnl] at h
    rw [dropLast_of_not_mem hnl]
    exact List.rdropWhile_eq_nil_iff.mpr (List.all_eq_true.mp h)

theorem isBlock_of_literal (h : t.kind = .literal) : t.isBlock = false := by
  simp [Token.isBlock, h]

theorem kind_of_plain {t' : Token} (h : plain t' = plain t) : t'.kind = t.kind :=
  (congrArg Token.kind h : (plain t').kind = (plain t).kind)

theorem text_of_plain {t' : Token} (h : plain t' = plain t) : t'.text = t.text :=
  (congrArg Token.text h : (plain t').text = (plain t).text)

theorem trailing_of_plain {p p' : Token} (h : plain p' = plain p) :
    trailingBlankToNewline (p' :: ps) = trailingBlankToNewline (p :: ps) := by
  simp only [trailingBlankToNewline, kind_of_plain h, text_of_plain h]

theorem kind_cutToken (front back : Bool) (t : Token) : (cutToken front back t).kind = t.kind := by
  unfold cutToken
  split <;> rfl

theorem plain_leading {mark : Bool} (h : mark = true → leadingBlankToNewline (t :: ts) = true) :
    plain (if mark then { t with text := trimLeadingLine t.text } else t)
      = plain (cutToken mark false t) := by
  cases mark with
  | false =>
      have hid : cutToken false false t = t := by
        unfold cutToken
        split <;> rfl
      rw [hid]
      rfl
  | true =>
      have hlead := h rfl
      simp only [leadingBlankToNewline, Bool.and_eq_true, decide_eq_true_eq] at hlead
      have htrim : trimLeadingLine t.text = dropFirst newline t.text := by
        refine trimLeadingLine_eq ?_
        by_cases hnl : newline ∈ t.text
        · exact .inl hnl
        · have hfirst := hlead.1.2
          rw [show t.text.takeWhile (· != newline) = t.text from first_of_not_mem hnl] at hfirst
          exact .inr hfirst
      rw [cutToken, if_pos hlead.1.1, if_pos rfl, htrim]
      rfl

theorem plain_trailing {p p' : Token} (hplain : plain p' = plain (cutToken front false p))
    (h : trailingBlankToNewline (p' :: ps) = true) :
    plain { p' with text := trimTrailingInlineSpace p'.text } = plain (cutToken front true p) := by
  simp only [trailingBlankToNewline, Bool.and_eq_true, decide_eq_true_eq] at h
  have hkp : p'.kind = p.kind := (kind_of_plain hplain).trans (kind_cutToken _ _ p)
  have hpk : p.kind = .literal := hkp ▸ h.1.1
  have htext : p'.text = cut front false p.text := by
    rw [text_of_plain hplain, cutToken, if_pos hpk]
  have htrim : trimTrailingInlineSpace p'.text = cut front true p.text := by
    rw [trimTrailing_eq h.1.2, htext]
    rfl
  have hrest := hplain
  rw [cutToken, if_pos hpk] at hrest ⊢
  simp only [plain, Token.mk.injEq] at hrest ⊢
  exact ⟨hrest.1, htrim, hrest.2.2.1, hrest.2.2.2.1, hrest.2.2.2.2.1, trivial⟩

/-- The loop, once it is behind its first token `p`: what it makes of `p` and the rest is what the
marks say. -/
theorem ownLines_eq {p p' : Token} {front mark : Bool} (hcut : Loose (p.kind ≠ .literal) ts)
    (hp : p.kind ≠ .literal → IsTag p) (hplain : plain p' = plain (cutToken front false p))
    (hbefore : p.kind = .literal → Fronted ps before)
    (hfront : front = true → p.kind = .literal ∧ ps ≠ [] ∧ (newline ∈ p.text ∨ ts = []))
    (hmark : mark = true → p.kind ≠ .literal ∧ leadingBlankToNewline ts = true) :
    (ownLines (p' :: ps) mark ts).map plain = ps.reverse.map plain
      ++ (cutWith front (mark :: marks (swallows front p) mark (lones (before ++ p.text) ts) ts)
        (p :: ts)).map plain := by
  induction ts generalizing p p' ps front mark before with
  | nil =>
      have hcode : ownLines (p' :: ps) mark [] = ps.reverse ++ [p'] := List.reverse_cons
      rw [hcode, List.map_append]
      exact congrArg (fun t => _ ++ [t]) hplain
  | cons t ts ih =>
      -- the next token as the loop sees it
      obtain ⟨t', ht', htdef⟩ : ∃ t', t' = (if mark then
          { t with text := trimLeadingLine t.text } else t) ∧ plain t' = plain (cutToken mark false t) :=
        ⟨_, rfl, plain_leading fun h => (hmark h).2⟩
      have hkt : t'.kind = t.kind := (kind_of_plain htdef).trans (kind_cutToken _ _ t)
      obtain ⟨hfree, htag, hcutt⟩ := hcut.cons
      have hpt : t.kind = .literal → p.kind ≠ .literal := fun hk => of_decide_eq_true (hfree hk)
      have hfront' : front = true → p.kind = .literal ∧ ps ≠ [] ∧ newline ∈ p.text := by
        intro h
        obtain ⟨hk, hps, hnl⟩ := hfront h
        exact ⟨hk, hps, hnl.resolve_right (List.cons_ne_nil t ts)⟩
      -- the loop marks the next token exactly when the marks do
      have hm : (t'.isBlock && trailingBlankToNewline (p' :: ps) && leadingBlankToNewline ts)
          = (lone (before ++ p.text) t (source ts) && !swallows front p) := by
        have hblock : t'.isBlock = t.isBlock := by rw [Token.isBlock, hkt, Token.isBlock]
        rw [hblock, trailing_of_plain hplain, trailing_cutToken hp hbefore hfront', leading_eq hcutt,
          lone]
        simp only [Bool.and_assoc, Bool.and_comm, Bool.and_left_comm]
      have hbefore' : t.kind = .literal → ∀ qs q, Fronted (q :: qs) (before ++ p.text) := by
        intro hk qs q
        obtain ⟨inner, htext, _⟩ := (hp (hpt hk)).text
        refine .inr ⟨List.cons_ne_nil q qs, before ++ (opener ++ inner), ?_⟩
        rw [htext, List.append_assoc, List.append_assoc, List.append_assoc]
      have hnext : mark = true → t.kind = .literal ∧ (newline ∈ t.text ∨ ts = []) := by
        intro h
        have hlead := (hmark h).2
        simp only [leadingBlankToNewline, Bool.and_eq_true, decide_eq_true_eq, Bool.or_eq_true,
          List.contains_iff_mem, List.isEmpty_iff] at hlead
        exact ⟨hlead.1.1, hlead.2⟩
      have hstep : ownLines (p' :: ps) mark (t :: ts) =
          if (t'.isBlock && trailingBlankToNewline (p' :: ps) && leadingBlankToNewline ts) = true then
            ownLines ({ t' with ownLine := true }
              :: { p' with text := trimTrailingInlineSpace p'.text } :: ps) true ts
          else ownLines (t' :: p' :: ps) false ts := by
        rw [ht']
        rfl
      have hspec (M : Bool) (hM : M = (lone (before ++ p.text) t (source ts) && !swallows front p)) :
          cutWith front (mark :: marks (swallows front p) mark (lones (before ++ p.text) (t :: ts))
            (t :: ts)) (p :: t :: ts) = cutToken front M p :: cutWith mark (M :: marks (swallows mark t) M
              (lones (before ++ p.text ++ t.text) ts) ts) (t :: ts) := by
        rw [hM]
        rfl
      rw [hstep, hspec _ rfl, hm]
      cases hM : (lone (before ++ p.text) t (source ts) && !swallows front p) with
      | true =>
          rw [hM] at hm
          simp only [Bool.and_eq_true] at hm
          have hnot : t.kind ≠ .literal := by
            intro hk
            rw [isBlock_of_literal (hkt.trans hk)] at hm
            exact Bool.noConfusion hm.1.1
          have hback := plain_trailing hplain hm.1.2
          have hmarked : plain { t' with ownLine := true } = plain (cutToken mark false t) := htdef
          rw [if_pos rfl, ih hcutt htag hmarked (fun hk => hbefore' hk _ _)
            (fun h => ⟨(hnext h).1, List.cons_ne_nil _ _, (hnext h).2⟩) (fun _ => ⟨hnot, hm.2⟩)]
          rw [List.reverse_cons, List.map_append, List.append_assoc, List.map_singleton, hback]
          rfl
      | false =>
          rw [if_neg Bool.false_ne_true, ih hcutt htag htdef (fun hk => hbefore' hk _ _)
            (fun h => ⟨(hnext h).1, List.cons_ne_nil _ _, (hnext h).2⟩) (fun h => Bool.noConfusion h)]
          rw [List.reverse_cons, List.map_append, List.append_assoc, List.map_singleton, hplain]
          rfl

/-- **The program takes out the lines of the tags it marks**, and of no others. -/
theorem applyOwnLine_eq (h : Loose true ts) : (applyOwnLine ts).map plain
    = (cutWith false (marks false false (lones [] ts) ts) ts).map plain := by
  cases ts with
  | nil => rfl
  | cons t ts =>
      obtain ⟨_, htag, hcut⟩ := h.cons
      have hself : cutToken false false t = t := by
        unfold cutToken
        split <;> rfl
      have hlone : lone [] t (source ts) = (t.isBlock && leadingBlankToNewline ts) := by
        rw [leading_eq hcut, lone]
        exact congrArg (· && _) (Bool.and_true _)
      have hstep : applyOwnLine (t :: ts) = ownLines
          [if (t.isBlock && leadingBlankToNewline ts) = true then { t with ownLine := true } else t]
          (t.isBlock && leadingBlankToNewline ts) ts := by
        unfold applyOwnLine
        rw [ownLines]
        simp only [Bool.false_eq_true, if_false, trailingBlankToNewline, Bool.and_true]
        cases t.isBlock && leadingBlankToNewline ts <;> rfl
      have hmark : marks false false (lones [] (t :: ts)) (t :: ts)
          = (t.isBlock && leadingBlankToNewline ts)
            :: marks (swallows false t) (t.isBlock && leadingBlankToNewline ts)
              (lones ([] ++ t.text) ts) ts := by
        rw [← hlone]
        show (lone [] t (source ts) && !false) :: _ = _
        rw [Bool.not_false, Bool.and_true]
      rw [hstep, hmark]
      refine ownLines_eq hcut htag ?_ (fun _ => .inl ⟨rfl, rfl⟩) (fun h => Bool.noConfusion h) ?_
      · rw [hself]
        cases t.isBlock && leadingBlankToNewline ts <;> rfl
      · intro h
        rw [Bool.and_eq_true] at h
        refine ⟨fun hk => ?_, h.2⟩
        rw [isBlock_of_literal hk] at h
        exact Bool.noConfusion h.1

/-! ## Lines one below the other -/

/-- Two block tags are alone on two lines, one below the other, and not at the very end: the
second has something behind it or blanks before it. -/
def Stacked (ts : List Token) : Prop :=
  ∃ front t l u back, ts = front ++ t :: l :: u :: back
    ∧ lone (source front) t (source (l :: u :: back)) = true
    ∧ l.kind = .literal ∧ l.text.count newline = 1
    ∧ lone (source front ++ t.text ++ l.text) u (source back) = true
    ∧ (l.text.getLast? = some newline → back ≠ [])

theorem lone_of_literal (h : t.kind = .literal) (before behind : Octets) :
    lone before t behind = false := by
  rw [lone, isBlock_of_literal h, Bool.false_and, Bool.false_and]

/-- A line break more or less is no matter to a tag that is not alone. -/
theorem marks_of_not_lone {front l : Bool} {ls : List Bool} (swallowed : Bool) (hl : l = false) :
    marks swallowed front (l :: ls) (t :: ts) = marks false front (l :: ls) (t :: ts) := by
  subst hl
  rfl

theorem cut_one {s : Octets} (h : s.count newline = 1) : cut true true s = [] := by
  have hmem : newline ∈ s := List.count_pos_iff.mp (by omega)
  have hcount := count_dropFirst hmem
  have hzero : (dropFirst newline s).count newline = 0 := by omega
  exact dropLast_of_not_mem (List.count_eq_zero.mp hzero)

theorem dropFirst_eq_nil_iff {s : Octets} (h : s.count newline = 1) :
    dropFirst newline s = [] ↔ s.getLast? = some newline := by
  have hmem : newline ∈ s := List.count_pos_iff.mp (by omega)
  obtain ⟨a, b, rfl, ha⟩ := exists_first hmem
  rw [dropFirst_eq ha]
  constructor
  · rintro rfl
    exact List.getLast?_concat
  · intro hlast
    by_contra hb
    have hnl : newline ∉ b := by
      have hcount := h
      rw [List.count_append, List.count_cons_self, List.count_eq_zero.mpr ha] at hcount
      exact List.count_eq_zero.mp (by omega)
    rw [List.getLast?_append_of_ne_nil _ (List.cons_ne_nil newline b),
      List.getLast?_cons_of_ne_nil hb] at hlast
    exact hnl (List.mem_of_getLast? hlast)

/-- Where no lines stand one below the other, the marks leave what the source says is left. -/
theorem cutWith_marks
    (hstack : ∀ pre t l u back, ts = pre ++ t :: l :: u :: back → lone (before ++ source pre) t (source (l :: u :: back)) = true → l.kind = .literal → l.text.count newline = 1 → lone (before ++ source pre ++ t.text ++ l.text) u (source back) = true → l.text.getLast? = some newline ∧ back = [])
    (hfront : front = true → ∀ l u back, ts = l :: u :: back → l.kind = .literal → l.text.count newline = 1 → lone (before ++ l.text) u (source back) = true → l.text.getLast? = some newline ∧ back = [])
    :
    cutWith front (marks false front (lones before ts) ts) ts = cutWith front (lones before ts) ts := by
  induction ts generalizing before front with
  | nil => rfl
  | cons t ts ih =>
      have hmarks : marks false front (lones before (t :: ts)) (t :: ts)
          = lone before t (source ts) :: marks (swallows front t) (lone before t (source ts))
            (lones (before ++ t.text) ts) ts := by
        show (lone before t (source ts) && !false) :: marks _ (lone before t (source ts) && !false) _ _ = _
        rw [Bool.not_false, Bool.and_true]
      -- what the rest says of lines one below the other
      have hrest : ∀ pre t' l u back, ts = pre ++ t' :: l :: u :: back →
          lone (before ++ t.text ++ source pre) t' (source (l :: u :: back)) = true →
          l.kind = .literal → l.text.count newline = 1 →
          lone (before ++ t.text ++ source pre ++ t'.text ++ l.text) u (source back) = true →
          l.text.getLast? = some newline ∧ back = [] := by
        intro pre t' l u back hts h1 h2 h3 h4
        refine hstack (t :: pre) t' l u back (by rw [hts]; rfl) ?_ h2 h3 ?_
        · rw [source_cons, ← List.append_assoc]
          exact h1
        · rw [source_cons, ← List.append_assoc]
          exact h4
      have hnext : lone before t (source ts) = true → ∀ l u back, ts = l :: u :: back →
          l.kind = .literal → l.text.count newline = 1 →
          lone (before ++ t.text ++ l.text) u (source back) = true →
          l.text.getLast? = some newline ∧ back = [] := by
        intro hl l u back hts h2 h3 h4
        refine hstack [] t l u back (by rw [hts]; rfl) ?_ h2 h3 ?_
        · rw [show source [] = [] from rfl, List.append_nil, ← hts]
          exact hl
        · rw [show source [] = [] from rfl, List.append_nil]
          exact h4
      rw [hmarks]
      cases hsw : swallows front t with
      | false =>
          have hhead : (marks false (lone before t (source ts)) (lones (before ++ t.text) ts) ts).head?
              = (lones (before ++ t.text) ts).head? := by
            cases ts with
            | nil => rfl
            | cons u ts =>
                show some (lone _ u _ && !false) = some (lone _ u _)
                rw [Bool.not_false, Bool.and_true]
          show cutToken front _ t :: _ = cutToken front _ t :: _
          rw [hhead, ih hrest hnext]
      | true =>
          simp only [swallows, Bool.and_eq_true, decide_eq_true_eq, beq_iff_eq] at hsw
          obtain ⟨⟨hk, hf⟩, hcount⟩ := hsw
          have hl0 : lone before t (source ts) = false := lone_of_literal hk _ _
          cases ts with
          | nil => rfl
          | cons u back =>
              cases hu : lone (before ++ t.text) u (source back) with
              | false =>
                  have hm := @marks_of_not_lone u back (lone before t (source (u :: back))) _
                    (lones (before ++ t.text ++ u.text) back) true hu
                  show cutWith front (_ :: marks true _ (lone (before ++ t.text) u (source back)
                    :: lones (before ++ t.text ++ u.text) back) (u :: back)) (t :: u :: back) = _
                  rw [hm]
                  have hrec := ih hrest hnext
                  show cutToken front _ t :: cutWith _ _ (u :: back) = cutToken front _ t :: _
                  refine congrArg₂ List.cons ?_ hrec
                  show cutToken front (lone _ u _ && !false) t = cutToken front (lone _ u _) t
                  rw [Bool.not_false, Bool.and_true]
              | true =>
                  obtain ⟨hlast, rfl⟩ := hfront hf t u back rfl hk hcount hu
                  have hdrop := (dropFirst_eq_nil_iff hcount).mpr hlast
                  have hcutu : ∀ f b, u.kind ≠ .literal → cutToken f b u = u := fun f b h => if_neg h
                  have hku : u.kind ≠ .literal := by
                    intro h
                    rw [lone_of_literal h] at hu
                    exact Bool.noConfusion hu
                  have hlhs : cutWith front (lone before t (source [u])
                      :: marks true (lone before t (source [u])) (lones (before ++ t.text) [u]) [u]) [t, u]
                      = [cutToken front (lone (before ++ t.text) u [] && !true) t, u] :=
                    congrArg (fun x => [_, x]) (hcutu _ _ hku)
                  have hrhs : cutWith front (lones before [t, u]) [t, u]
                      = [cutToken front (lone (before ++ t.text) u []) t, u] :=
                    congrArg (fun x => [_, x]) (hcutu _ _ hku)
                  have hu' : lone (before ++ t.text) u [] = true := hu
                  rw [hlhs, hrhs, hu', Bool.not_true, Bool.and_false, hf, cutToken, if_pos hk, cutToken,
                    if_pos hk, cut_one hcount]
                  exact congrArg (fun s => [{ t with text := s }, u]) hdrop

/-! ## What the marks leave over -/

theorem count_cut (front back : Bool) (s : Octets) : (cut front back s).count newline
    = if front = true ∧ newline ∈ s then s.count newline - 1 else s.count newline := by
  have hback : ∀ s : Octets, (if back then dropLast newline s else s).count newline = s.count newline := by
    intro s
    cases back with
    | false => rfl
    | true => exact count_dropLast s
  unfold cut
  rw [hback]
  cases front with
  | false => rw [if_neg Bool.false_ne_true, if_neg (fun h => Bool.false_ne_true h.1)]
  | true =>
      by_cases hs : newline ∈ s
      · have := count_dropFirst hs
        rw [if_pos rfl, if_pos ⟨rfl, hs⟩]
        omega
      · rw [if_pos rfl, if_neg (fun h => hs h.2), dropFirst_of_not_mem hs, List.count_nil,
          List.count_eq_zero.mpr hs]

/-- Two lists of tokens with unequal marks that are cut alike have no lines one below the other. -/
theorem not_stacked_of_cutWith {free swallowed front front' : Bool} (hcut : Loose free ts)
    (h : cutWith front (marks swallowed front (lones before ts) ts) ts
      = cutWith front' (lones before ts) ts)
    {pre : List Token} {l u : Token} {back : List Token} (hts : ts = pre ++ t :: l :: u :: back)
    (ht : lone (before ++ source pre) t (source (l :: u :: back)) = true)
    (hl : l.kind = .literal) (hcount : l.text.count newline = 1)
    (hu : lone (before ++ source pre ++ t.text ++ l.text) u (source back) = true) :
    l.text.getLast? = some newline ∧ back = [] := by
  induction pre generalizing ts before free swallowed front front' with
  | cons x pre ih =>
      subst hts
      have hrest := (List.cons.inj h).2
      refine ih hcut.cons.2.2 hrest rfl ?_ ?_
      · rw [List.append_assoc, ← source_cons]
        exact ht
      · rw [List.append_assoc before, ← source_cons]
        exact hu
  | nil =>
      subst hts
      have hsource : before ++ source [] = before := List.append_nil before
      rw [hsource] at ht hu
      have hl0 : lone (before ++ t.text) l (source (u :: back)) = false := lone_of_literal hl _ _
      have hmem : newline ∈ l.text := List.count_pos_iff.mp (by omega)
      -- the marks of the three tokens
      obtain ⟨mt, hmt⟩ : ∃ mt, mt = (lone before t (source (l :: u :: back)) && !swallowed) := ⟨_, rfl⟩
      obtain ⟨mu, hmu⟩ : ∃ mu, mu = (lone (before ++ t.text ++ l.text) u (source back)
          && !swallows mt l) := ⟨_, rfl⟩
      have htail := (List.cons.inj h).2
      change cutWith (_ && !swallowed) ((lone _ l _ && _) :: (lone _ u _ && !swallows _ l) :: _)
        (l :: u :: back) = cutWith (lone _ t _) (lone _ l _ :: lone _ u _ :: _) (l :: u :: back) at htail
      rw [← hmt, ← hmu, ht, hu] at htail
      have hltext : cut mt mu l.text = [] := by
        have hhead := (List.cons.inj htail).1
        change cutToken mt mu l = cutToken true true l at hhead
        rw [cutToken, if_pos hl, cutToken, if_pos hl, cut_one hcount] at hhead
        exact congrArg Token.text hhead
      have hmt' : mt = true := by
        cases hmtv : mt with
        | true => rfl
        | false =>
            have hc := count_cut mt mu l.text
            rw [hltext, hmtv, if_neg (fun h => Bool.noConfusion h.1), hcount] at hc
            cases hc
      have hmu' : mu = false := by
        rw [hmu, hmt', hu]
        simp [swallows, hl, hcount]
      rw [hmt', hmu'] at hltext
      have hdrop : dropFirst newline l.text = [] := hltext
      refine ⟨(dropFirst_eq_nil_iff hcount).mp hdrop, ?_⟩
      -- what stands behind the second tag loses a line in one and not in the other
      by_contra hback
      obtain ⟨v, rest, rfl⟩ := List.exists_cons_of_ne_nil hback
      have hcutv := hcut.cons.2.2.cons.2.2.cons.2.2
      have hlead : leadingBlankToNewline (v :: rest) = true := by
        rw [leading_eq hcutv]
        simp only [lone, Bool.and_eq_true] at hu
        exact hu.2
      simp only [leadingBlankToNewline, Bool.and_eq_true, decide_eq_true_eq, Bool.or_eq_true,
        List.contains_iff_mem, List.isEmpty_iff] at hlead
      have hv := (List.cons.inj (List.cons.inj (List.cons.inj htail).2).2).1
      have hvtext := congrArg Token.text hv
      simp only [cutToken, if_pos hlead.1.1] at hvtext
      by_cases hnl : newline ∈ v.text
      · have hc := congrArg (List.count newline) hvtext
        have hpos := List.count_pos_iff.mpr hnl
        simp only [count_cut, hmu', Bool.false_eq_true, false_and, if_false, true_and, if_pos hnl] at hc
        omega
      · obtain rfl := hlead.2.resolve_left hnl
        have hvtext : cut mu false v.text = cut true false v.text := hvtext
        rw [hmu'] at hvtext
        have hnil : v.text = [] := hvtext.trans (dropFirst_of_not_mem hnl)
        cases hcutv.free with
        | literal _ hne _ => exact hne hnil
        | tag ht _ => exact ht.kind hlead.1.1

/-- **What the program cuts is what the source says**, exactly where no two such lines stand one
below the other. -/
theorem cutWith_eq_iff (h : Loose true ts) :
    cutWith false (marks false false (lones [] ts) ts) ts = settle ts ↔ ¬ Stacked ts := by
  constructor
  · rintro heq ⟨pre, t, l, u, back, hts, ht, hl, hcount, hu, hend⟩
    obtain ⟨hlast, hback⟩ := @not_stacked_of_cutWith _ _ [] _ _ _ _ h heq _ _ _ _
      hts ht hl hcount hu
    exact hend hlast hback
  · intro hstack
    refine cutWith_marks ?_ (fun h => Bool.noConfusion h)
    intro pre t l u back hts ht hl hcount hu
    by_contra hend
    refine hstack ⟨pre, t, l, u, back, hts, ht, hl, hcount, hu, fun hlast hback => ?_⟩
    exact hend ⟨hlast, hback⟩

/-- A token with at least as much text, a tag being the same. -/
structure Longer (c p : Token) : Prop where
  same : c = { p with text := c.text }
  text : p.text.Sublist c.text
  tag : p.kind ≠ .literal → c = p

theorem cut_sublist {front front' back back' : Bool} (hf : front = true → front' = true)
    (hb : back = true → back' = true) (s : Octets) :
    (cut front' back' s).Sublist (cut front back s) := by
  have hdrop : (dropFirst newline s).Sublist s :=
    ((List.drop_suffix 1 _).trans (List.dropWhile_suffix _)).sublist
  have hlast : ∀ s : Octets, (dropLast newline s).Sublist s := fun s =>
    (List.rdropWhile_prefix _ _).sublist
  cases front <;> cases back
  · cases front' <;> cases back'
    · exact List.Sublist.refl s
    · exact hlast s
    · exact hdrop
    · exact (hlast _).trans hdrop
  · rw [hb rfl]
    cases front'
    · exact List.Sublist.refl _
    · exact dropLast_dropFirst_sublist s
  · rw [hf rfl]
    cases back'
    · exact List.Sublist.refl _
    · exact hlast _
  · rw [hf rfl, hb rfl]

theorem longer_cutToken {front front' back back' : Bool} (hf : front = true → front' = true)
    (hb : back = true → back' = true) (t : Token) :
    Longer (cutToken front back t) (cutToken front' back' t) := by
  by_cases hk : t.kind = .literal
  · rw [cutToken, if_pos hk, cutToken, if_pos hk]
    exact ⟨rfl, cut_sublist hf hb t.text, fun hnot => absurd hk hnot⟩
  · rw [cutToken, if_neg hk, cutToken, if_neg hk]
    exact ⟨rfl, List.Sublist.refl _, fun _ => rfl⟩

/-- The program leaves at least what the source says is left, token by token. -/
theorem longer_cutWith {swallowed flag front front' : Bool} (hf : front = true → front' = true) :
    List.Forall₂ Longer (cutWith front (marks swallowed flag (lones before ts) ts) ts)
      (cutWith front' (lones before ts) ts) := by
  induction ts generalizing before swallowed flag front front' with
  | nil => exact List.Forall₂.nil
  | cons t ts ih =>
      refine List.Forall₂.cons (longer_cutToken hf ?_ t) (ih ?_)
      · cases ts with
        | nil => exact fun h => h
        | cons u ts => exact fun h => (Bool.and_eq_true_iff.mp h).1
      · exact fun h => (Bool.and_eq_true_iff.mp h).1

end SnmpLens.Render
