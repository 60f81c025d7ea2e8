import SnmpLens.Render.Whole

/-!
# Own-line tags of any template

What `OwnLine.lean` says of the tokens of an accepted template holds of every source: the
scanner leaves a braced text that is no tag in the literal text around it, and what it cuts
is literal text with tags between, of which no two literals are neighbours (`loose_scanFrom`).

A line may end in CR LF as well as in LF. `applyOwnLine` looks for blanks up to the LF and
takes the CR for text, so a block tag on a line of its own that ends in CR LF keeps the line.
With two tags one below the other that is all that goes wrong (`own_line_tags_vanish_iff`).
-/

namespace SnmpLens.Render

open Utf8 Lines

variable {t : Token} {ts : List Token} {before : Octets}

/-! ## The tokens of any source -/

theorem loose_flush {lit : Octets} (h : ts = [] ∨ ∃ t rest, ts = t :: rest ∧ IsTag t ∧ Loose true rest) :
    Loose true (flush lit ++ ts) := by
  have htail : ∀ free, Loose free ts := by
    intro free
    rcases h with rfl | ⟨t, rest, rfl, ht, hrest⟩
    · exact .nil
    · exact .tag ht hrest
  cases lit with
  | nil => exact htail true
  | cons b lit => exact .literal rfl (List.cons_ne_nil b lit) (htail false)

theorem loose_scanFrom (skip : Nat) (lit src : Octets) : Loose true (scanFrom skip lit src) := by
  induction src generalizing skip lit with
  | nil =>
      have hscan : scanFrom skip lit [] = flush lit ++ [] := by
        cases skip <;> exact (List.append_nil _).symm
      rw [hscan]
      exact loose_flush (.inl rfl)
  | cons b src ih =>
      cases skip with
      | succ skip => exact ih skip lit
      | zero =>
          rw [scanFrom]
          split
          · exact ih 0 (lit ++ [b])
          · rename_i hb
            have hb' : opener <+: b :: src := by
              have hpre : (octets "\x7b\x7b").isPrefixOf (b :: src) = true := by
                simpa only [Bool.not_eq_true, Bool.not_eq_false'] using hb
              exact List.isPrefixOf_iff_prefix.mp hpre
            split
            · have hlast := @loose_flush [] (lit ++ b :: src) (.inl rfl)
              rwa [List.append_nil] at hlast
            · rename_i stop hstop
              dsimp only
              have hraw := raw_eq hb' hstop
              split
              · exact ih _ _
              · rename_i tok htok
                obtain ⟨hk, htext, -⟩ := parseTag_some htok
                have htag : IsTag tok := ⟨hk, _, htext.trans hraw, by rw [htext]; exact htok⟩
                exact loose_flush (.inr ⟨tok, _, rfl, htag, ih _ _⟩)

theorem not_marked_of_parseTag {inner raw : Octets} (h : parseTag inner raw = some t) :
    t.ownLine = false := by
  unfold parseTag at h
  split at h
  · cases h
  · split at h
    · dsimp only at h
      split at h
      · cases h
      · cases h
        rfl
    · split at h
      · dsimp only at h
        split at h
        · cases h
        · cases h
          rfl
      · split at h
        · cases h
        · cases h
          rfl

theorem plain_flush (lit : Octets) : (flush lit).map plain = flush lit := by
  cases lit <;> rfl

theorem plain_scanFrom (skip : Nat) (lit src : Octets) :
    (scanFrom skip lit src).map plain = scanFrom skip lit src := by
  induction src generalizing skip lit with
  | nil => cases skip <;> exact plain_flush lit
  | cons b src ih =>
      cases skip with
      | succ skip => exact ih skip lit
      | zero =>
          rw [scanFrom]
          split
          · exact ih 0 (lit ++ [b])
          · split
            · exact plain_flush _
            · dsimp only
              split
              · exact ih _ _
              · rename_i tok htok
                have hplain : plain tok = tok := by
                  unfold plain
                  rw [← not_marked_of_parseTag htok]
                rw [List.map_append, plain_flush, List.map_cons, hplain, ih]

/-! ## Lines -/

/-- The line ends here, in CR LF. -/
def returns (behind : Octets) : Bool := (octets "\r\n").isPrefixOf (behind.dropWhile inline)

/-- A tag with nothing else on its line but the CR that ends it. -/
def loneReturn (before : Octets) (t : Token) (behind : Octets) : Bool :=
  t.isBlock && (last newline before).all inline && returns behind

/-- Which tokens are alone on their line, whichever way it ends. -/
def loneLines : Octets → List Token → List Bool
  | _, [] => []
  | before, t :: ts =>
      (lone before t (source ts) || loneReturn before t (source ts)) :: loneLines (before ++ t.text) ts

/-- **What is left of any template** when every block tag that is alone on its line is taken out
with it. -/
def vanish (ts : List Token) : List Token := cutWith false (loneLines [] ts) ts

/-- A block tag is alone on a line that ends in CR LF. -/
def Returned (ts : List Token) : Prop :=
  ∃ front t back, ts = front ++ t :: back ∧ loneReturn (source front) t (source back) = true

theorem returns_iff {behind : Octets} :
    returns behind = true ↔ ∃ rest, behind.dropWhile inline = chr '\r' :: newline :: rest := by
  unfold returns
  rw [List.isPrefixOf_iff_prefix]
  constructor
  · rintro ⟨rest, hrest⟩
    exact ⟨rest, hrest.symm⟩
  · rintro ⟨rest, hrest⟩
    exact ⟨rest, hrest.symm⟩

theorem brace_of_loose {ts : List Token} (h : Loose false ts) :
    source ts = [] ∨ ∃ rest, source ts = chr '\x7b' :: rest := by
  cases h with
  | nil => exact .inl rfl
  | tag ht _ =>
      obtain ⟨inner, htext, -⟩ := ht.text
      right
      rw [source_cons, htext]
      exact ⟨_, rfl⟩

/-- Behind the blanks of such a line is literal text, with the break in it. -/
theorem literal_of_returns (h : Loose true ts) (hret : returns (source ts) = true) :
    ∃ l back, ts = l :: back ∧ l.kind = .literal ∧ newline ∈ l.text := by
  obtain ⟨rest, hrest⟩ := returns_iff.mp hret
  have hbrace : ∀ {us : List Token} {b : UInt8} {rest : Octets}, Loose false us → b ≠ chr '\x7b' →
      source us ≠ b :: rest := by
    intro us b rest hus hb heq
    rcases brace_of_loose hus with hnil | ⟨more, hmore⟩
    · rw [hnil] at heq
      cases heq
    · rw [hmore] at heq
      exact hb (List.cons.inj heq).1.symm
  have hbare : ∀ {us : List Token}, Loose false us →
      (source us).dropWhile inline ≠ chr '\r' :: newline :: rest := by
    intro us hus heq
    rcases brace_of_loose hus with hnil | ⟨more, hmore⟩
    · rw [hnil] at heq
      cases heq
    · rw [hmore, List.dropWhile_cons_of_neg (by decide)] at heq
      exact absurd (List.cons.inj heq).1 (by decide)
  cases h with
  | nil => cases hrest
  | tag ht h => exact absurd hrest (hbare (.tag ht h))
  | @literal l back hk _ hback =>
      refine ⟨l, back, rfl, hk, ?_⟩
      rw [source_cons, List.dropWhile_append] at hrest
      cases hblank : l.text.dropWhile inline with
      | nil =>
          rw [hblank] at hrest
          exact absurd hrest (hbare hback)
      | cons c tail =>
          rw [hblank, if_neg (by simp), List.cons_append] at hrest
          have htail := (List.cons.inj hrest).2
          cases tail with
          | nil => exact absurd htail (hbrace hback (by decide))
          | cons d tail =>
              obtain ⟨rfl, -⟩ := List.cons.inj htail
              refine (List.dropWhile_suffix inline).subset ?_
              rw [hblank]
              simp

/-- The CR is no blank, so the program does not take such a tag for alone. -/
theorem not_lone_of_return {behind : Octets} (h : loneReturn before t behind = true) :
    lone before t behind = false := by
  unfold loneReturn at h
  simp only [Bool.and_eq_true] at h
  obtain ⟨rest, hrest⟩ := returns_iff.mp h.2
  have hcr : chr '\r' ∈ first newline behind := by
    unfold first
    rw [← List.takeWhile_append_dropWhile (p := inline) (l := behind), hrest,
      List.takeWhile_append_of_pos, List.takeWhile_cons_of_pos (by decide)]
    · simp
    · intro b hb
      rw [bne_iff_ne]
      rintro rfl
      have hblank := List.mem_takeWhile_imp hb
      rw [inline_newline] at hblank
      cases hblank
  unfold lone
  rw [Bool.and_eq_false_iff]
  right
  rw [List.all_eq_false]
  exact ⟨_, hcr, by decide⟩

theorem not_returned_of_cutWith {free swallowed flag front front' : Bool} (hcut : Loose free ts)
    (h : cutWith front (marks swallowed flag (lones before ts) ts) ts
      = cutWith front' (loneLines before ts) ts)
    {pre back : List Token} (hts : ts = pre ++ t :: back) :
    loneReturn (before ++ source pre) t (source back) = false := by
  induction pre generalizing ts before free swallowed flag front front' with
  | cons x pre ih =>
      subst hts
      have hrest := (List.cons.inj h).2
      have hlone := ih hcut.cons.2.2 hrest rfl
      rwa [List.append_assoc, ← source_cons] at hlone
  | nil =>
      subst hts
      rw [show before ++ source [] = before from List.append_nil before]
      by_contra hret
      rw [Bool.not_eq_false] at hret
      obtain ⟨l, rest, rfl, hl, hnl⟩ : ∃ l rest, back = l :: rest ∧ l.kind = .literal ∧
          newline ∈ l.text := by
        have hmore := hret
        unfold loneReturn at hmore
        rw [Bool.and_eq_true] at hmore
        have hloose := hcut.cons.2.2
        exact literal_of_returns hloose.free hmore.2
      have hno := not_lone_of_return hret
      have htail := (List.cons.inj h).2
      change cutWith (lone before t (source (l :: rest)) && !swallowed) _ (l :: rest)
        = cutWith (lone before t _ || loneReturn before t _) _ (l :: rest) at htail
      rw [hno, hret, Bool.false_and, Bool.or_true] at htail
      have hhead := congrArg Token.text (List.cons.inj htail).1
      rw [cutToken, if_pos hl, cutToken, if_pos hl] at hhead
      have hcount := congrArg (List.count newline) hhead
      have hpos := List.count_pos_iff.mpr hnl
      simp only [count_cut, Bool.false_eq_true, false_and, if_false, true_and, if_pos hnl] at hcount
      omega

/-- Where no line ends in CR LF both ways of looking at lines agree. -/
theorem loneLines_eq (h : ∀ pre t back, ts = pre ++ t :: back →
    loneReturn (before ++ source pre) t (source back) = false) :
    loneLines before ts = lones before ts := by
  induction ts generalizing before with
  | nil => rfl
  | cons t ts ih =>
      have hhead := h [] t ts rfl
      rw [show before ++ source [] = before from List.append_nil before] at hhead
      unfold loneLines lones
      rw [hhead, Bool.or_false, ih]
      intro pre u back hts
      have hrest := h (t :: pre) u back (by rw [hts]; rfl)
      rwa [source_cons, ← List.append_assoc] at hrest

theorem plain_cutWith {front : Bool} {ms : List Bool} (h : ts.map plain = ts) :
    (cutWith front ms ts).map plain = cutWith front ms ts := by
  induction ts generalizing front ms with
  | nil => cases ms <;> rfl
  | cons t ts ih =>
      cases ms with
      | nil => rfl
      | cons m ms =>
          obtain ⟨ht, hts⟩ := List.cons.inj h
          have hhead : ∀ back, plain (cutToken front back t) = cutToken front back t := by
            intro back
            unfold cutToken
            split
            · exact congrArg (fun u : Token => { u with text := cut front back t.text }) ht
            · exact ht
          exact congrArg₂ List.cons (hhead _) (ih hts)

theorem scan_eq (src : Octets) :
    (scan src).map plain = cutWith false (marks false false (lones [] (scanFrom 0 [] src))
      (scanFrom 0 [] src)) (scanFrom 0 [] src) := by
  unfold scan
  rw [applyOwnLine_eq (loose_scanFrom 0 [] src), plain_cutWith (plain_scanFrom 0 [] src)]

/--
**Own-line block tags vanish with their line, and nothing else does**, exactly where no two of
them are alone on two lines, one below the other, and no such line ends in CR LF.
-/
theorem own_line_tags_vanish_iff (src : Octets) :
    (scan src).map plain = vanish (scanFrom 0 [] src) ↔
      ¬ Stacked (scanFrom 0 [] src) ∧ ¬ Returned (scanFrom 0 [] src) := by
  have hloose := loose_scanFrom 0 [] src
  rw [scan_eq, ← cutWith_eq_iff hloose]
  have hagree : ¬ Returned (scanFrom 0 [] src) →
      vanish (scanFrom 0 [] src) = settle (scanFrom 0 [] src) := by
    intro hno
    unfold vanish settle
    rw [loneLines_eq]
    intro pre t back hts
    by_contra hret
    exact hno ⟨pre, t, back, hts, Bool.not_eq_false _ ▸ hret⟩
  constructor
  · intro h
    have hno : ¬ Returned (scanFrom 0 [] src) := by
      rintro ⟨pre, t, back, hts, hret⟩
      have hfalse := @not_returned_of_cutWith _ _ [] _ _ _ _ _ hloose h _ _ hts
      rw [List.nil_append, hret] at hfalse
      cases hfalse
    rw [hagree hno] at h
    exact ⟨h, hno⟩
  · rintro ⟨h, hno⟩
    rw [hagree hno, h]

/-- A tag keeps a line that ends in CR LF. -/
example : (scan (octets "\x7b\x7b#oid\x7d\x7d\r\nEnd")).map plain
    ≠ vanish (scanFrom 0 [] (octets "\x7b\x7b#oid\x7d\x7d\r\nEnd")) := by
  decide

/-- **Not every own-line tag vanishes**: of two, one below the other, the second leaves a line. -/
theorem own_line_tag_stays : ¬ ∀ src, (scan src).map plain = vanish (scanFrom 0 [] src) := by
  intro h
  exact absurd (h (octets "\x7b\x7b#oid\x7d\x7d\n\x7b\x7b/oid\x7d\x7d\nEnd")) (by decide)

end SnmpLens.Render
