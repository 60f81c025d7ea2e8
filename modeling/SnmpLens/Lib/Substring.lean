import Mathlib.Data.List.Infix

/-!
# Where a word can stand in a text that was put together

A word that does not have the separator stands in one of the two parts. And
replacing one string by another that is marked off on both sides (`[redacted]`)
makes no word appear that was not there before, unless the mark spells it.

Where the mark has no part in a word, replacing is also thorough: a word that is left
stood in a stretch of the old text that what was looked for did not stand in. So a word
that holds one of the strings looked for is never left, whatever stands around it.
-/

namespace Substring

variable {α β : Type*}

theorem infix_append_cons {p a b : List α} {c : α} (hc : c ∉ p) :
    p <:+: a ++ c :: b ↔ p <:+: a ∨ p <:+: b := by
  constructor
  · intro h
    rcases List.infix_append_iff.mp h with h | h | ⟨l, r, rfl, hl, hr⟩
    · exact .inl h
    · rcases List.infix_cons_iff.mp h with h | h
      · rcases List.prefix_cons_iff.mp h with rfl | ⟨t, rfl, _⟩
        · exact .inl (List.nil_infix)
        · exact absurd List.mem_cons_self hc
      · exact .inr h
    · rcases List.prefix_cons_iff.mp hr with rfl | ⟨t, rfl, _⟩
      · rw [List.append_nil]
        exact .inl hl.isInfix
      · exact absurd (List.mem_append_right _ List.mem_cons_self) hc
  · intro h
    rcases h with h | h
    · exact h.trans (List.prefix_append _ _).isInfix
    · exact h.trans ((List.suffix_cons _ _).trans (List.suffix_append _ _)).isInfix

theorem infix_cons_of_head {p b : List α} {c : α} (hc : p.head? ≠ some c) :
    p <:+: c :: b ↔ p <:+: b := by
  constructor
  · intro h
    rcases List.infix_cons_iff.mp h with h | h
    · rcases List.prefix_cons_iff.mp h with rfl | ⟨t, rfl, _⟩
      · exact List.nil_infix
      · exact absurd rfl hc
    · exact h
  · exact fun h => h.trans (List.suffix_cons _ _).isInfix

theorem infix_append_disjoint {p a d : List α} (hd : ∀ c ∈ d, c ∉ p) :
    p <:+: a ++ d ↔ p <:+: a := by
  constructor
  · intro h
    rcases List.infix_append_iff.mp h with h | h | ⟨l, r, rfl, hl, hr⟩
    · exact h
    · cases p with
      | nil => exact List.nil_infix
      | cons c t => exact absurd List.mem_cons_self (hd c (h.subset List.mem_cons_self))
    · cases r with
      | nil =>
          rw [List.append_nil]
          exact hl.isInfix
      | cons c t =>
          exact absurd (List.mem_append_right _ List.mem_cons_self)
            (hd c (hr.subset List.mem_cons_self))
  · exact fun h => h.trans (List.prefix_append _ _).isInfix

/-! ## Replacing -/

section

variable [DecidableEq α]

/-- The copy of a text with every occurrence replaced, `skip` characters being left of one. -/
def replaceFrom (old new : List α) : Nat → List α → List α
  | _, [] => []
  | skip + 1, _ :: t => replaceFrom old new skip t
  | 0, c :: t =>
      if old.isPrefixOf (c :: t) then new ++ replaceFrom old new (old.length - 1) t
      else c :: replaceFrom old new 0 t

/-- `strings.ReplaceAll`, for something to look for that is not empty. -/
def replaceAll (old new s : List α) : List α := replaceFrom old new 0 s

/-- What is looked for is one character: each copy of it becomes the word. -/
theorem replaceAll_singleton (c : α) (w s : List α) :
    replaceAll [c] w s = s.flatMap fun b => if b = c then w else [b] := by
  induction s with
  | nil => rfl
  | cons b s ih =>
      show replaceFrom [c] w 0 (b :: s) = _
      rw [replaceFrom, List.flatMap_cons]
      by_cases hb : b = c
      · rw [if_pos (by simp [hb]), if_pos hb]
        exact congrArg (w ++ ·) ih
      · have hne : ¬ [c].isPrefixOf (b :: s) = true := by
          simpa [List.isPrefixOf] using fun h : c = b => hb h.symm
        rw [if_neg hne, if_neg hb]
        exact congrArg (b :: ·) ih

variable {old mid t : List α} {l r : α} {p : List β} {f : α → β}

theorem prefix_of_prefix_replaceFrom (hl : f l ∉ p)
    (h : p <+: (replaceFrom old (l :: (mid ++ [r])) 0 t).map f) : p <+: t.map f := by
  induction t generalizing p with
  | nil => exact h
  | cons c t ih =>
      cases p with
      | nil => exact List.nil_prefix
      | cons x p =>
          unfold replaceFrom at h
          split at h
          · rw [List.cons_append, List.map_cons] at h
            obtain rfl := (List.cons_prefix_cons.mp h).1
            exact absurd List.mem_cons_self hl
          · rw [List.map_cons] at h ⊢
            obtain ⟨rfl, htail⟩ := List.cons_prefix_cons.mp h
            exact List.cons_prefix_cons.mpr
              ⟨rfl, ih (fun hin => hl (List.mem_cons_of_mem _ hin)) htail⟩

/-- **A word of the new text was in the old one**, unless it has one of the marks or is
between them. -/
theorem infix_of_infix_replaceFrom (hl : f l ∉ p) (hr : f r ∉ p) (hmid : ¬ p <:+: mid.map f)
    {skip : Nat} (h : p <:+: (replaceFrom old (l :: (mid ++ [r])) skip t).map f) :
    p <:+: t.map f := by
  have hdrop : ∀ {c : α} {t : List α}, p <:+: t.map f → p <:+: (c :: t).map f :=
    fun h => h.trans (List.suffix_cons _ _).isInfix
  induction t generalizing skip with
  | nil =>
      cases skip <;> exact h
  | cons c t ih =>
      cases skip with
      | succ skip => exact hdrop (ih h)
      | zero =>
          unfold replaceFrom at h
          split at h
          · have hsplit : (l :: (mid ++ [r]) ++ replaceFrom old (l :: (mid ++ [r]))
                (old.length - 1) t).map f = [] ++ f l :: (mid.map f ++ f r ::
                  (replaceFrom old (l :: (mid ++ [r])) (old.length - 1) t).map f) := by
              simp
            rw [hsplit, infix_append_cons hl, infix_append_cons hr] at h
            rcases h with h | h | h
            · obtain rfl := List.infix_nil.mp h
              exact List.nil_infix
            · exact absurd h hmid
            · exact hdrop (ih h)
          · rw [List.map_cons, List.infix_cons_iff] at h
            rcases h with h | h
            · rcases List.prefix_cons_iff.mp h with rfl | ⟨q, rfl, hq⟩
              · exact List.nil_infix
              · refine List.IsPrefix.isInfix ?_
                have hlq : f l ∉ q := fun hin => hl (List.mem_cons_of_mem _ hin)
                exact List.cons_prefix_cons.mpr ⟨rfl, prefix_of_prefix_replaceFrom hlq hq⟩
            · exact hdrop (ih h)

end

/-! ## Words that a mark has no part in -/

/-- The word and the mark do not run into each other, and neither is part of the other. -/
structure Apart (p mark : List α) : Prop where
  inside : ¬ p <:+: mark
  around : ¬ mark <:+: p
  /-- No end of the word begins the mark. -/
  before : ∀ z, z ≠ [] → z <:+ p → ¬ z <+: mark
  /-- No beginning of the word ends the mark. -/
  behind : ∀ z, z ≠ [] → z <+: p → ¬ z <:+ mark

/-- Where such a word stands beside the mark, it stands wholly on one side of it. -/
theorem Apart.infix_append {p mark a b : List α} (h : Apart p mark) (hp : p <:+: a ++ mark ++ b) :
    p <:+: a ∨ p <:+: b := by
  rcases List.infix_append_iff.mp hp with hp | hp | ⟨z, w, rfl, hz, hw⟩
  · rcases List.infix_append_iff.mp hp with hp | hp | ⟨z, w, rfl, hz, hw⟩
    · exact .inl hp
    · exact absurd hp h.inside
    · by_cases hne : w = []
      · subst hne
        rw [List.append_nil]
        exact .inl hz.isInfix
      · exact absurd hw (h.before w hne (List.suffix_append z w))
  · exact .inr hp
  · by_cases hne : z = []
    · subst hne
      exact .inr hw.isInfix
    · rcases List.suffix_or_suffix_of_suffix hz (List.suffix_append a mark) with hz | hmark
      · exact absurd hz (h.behind z hne (List.prefix_append z w))
      · exact absurd (hmark.isInfix.trans (List.prefix_append z w).isInfix) h.around

/-- A word without the two ends of a mark, and no part of its middle, is apart from it. -/
theorem apart_of_not_mem {p mid : List α} {l r : α} (hl : l ∉ p) (hr : r ∉ p)
    (hmid : ¬ p <:+: mid) : Apart p (l :: (mid ++ [r])) where
  inside h := by
    have hsplit : l :: (mid ++ [r]) = [] ++ l :: (mid ++ r :: []) := rfl
    rw [hsplit, infix_append_cons hl, infix_append_cons hr] at h
    rcases h with h | h | h
    · exact hmid (List.infix_nil.mp h ▸ List.nil_infix)
    · exact hmid h
    · exact hmid (List.infix_nil.mp h ▸ List.nil_infix)
  around h := hl (h.subset List.mem_cons_self)
  before z hne hz hmark := by
    rcases List.prefix_cons_iff.mp hmark with rfl | ⟨t, rfl, _⟩
    · exact hne rfl
    · exact hl (hz.subset List.mem_cons_self)
  behind z hne hz hmark := by
    rw [← List.cons_append, List.suffix_concat_iff] at hmark
    rcases hmark with rfl | ⟨t, rfl, _⟩
    · exact hne rfl
    · exact hr (hz.subset (List.mem_append_right _ List.mem_cons_self))

section

variable [DecidableEq α] {old mark p t : List α}

theorem replaceFrom_eq_drop (n : Nat) (t : List α) :
    replaceFrom old mark n t = replaceAll old mark (t.drop n) := by
  induction t generalizing n with
  | nil =>
      rw [List.drop_nil]
      cases n <;> rfl
  | cons c t ih =>
      cases n with
      | zero => rfl
      | succ n => exact ih n

theorem replaceAll_append {b : List α} (hne : old ≠ []) :
    replaceAll old mark (old ++ b) = mark ++ replaceAll old mark b := by
  obtain ⟨c, rest, rfl⟩ := List.exists_cons_of_ne_nil hne
  have hp : (c :: rest).isPrefixOf (c :: (rest ++ b)) = true :=
    List.isPrefixOf_iff_prefix.mpr ⟨b, rfl⟩
  show replaceFrom (c :: rest) mark 0 (c :: (rest ++ b)) = _
  rw [replaceFrom, if_pos hp, replaceFrom_eq_drop, List.length_cons, Nat.add_sub_cancel,
    List.drop_left]

theorem replaceAll_cons {c : α} (h : ¬ old <+: c :: t) :
    replaceAll old mark (c :: t) = c :: replaceAll old mark t := by
  have hp : ¬ old.isPrefixOf (c :: t) = true := fun hp => h (List.isPrefixOf_iff_prefix.mp hp)
  show replaceFrom old mark 0 (c :: t) = _
  rw [replaceFrom, if_neg hp]
  rfl

/-- A character that neither word has is left as often as it stood there. -/
theorem count_replaceAll {c : α} (hold : c ∉ old) (hmark : c ∉ mark) (hne : old ≠ [])
    (t : List α) : (replaceAll old mark t).count c = t.count c := by
  induction h : t.length using Nat.strong_induction_on generalizing t with
  | _ n ih =>
      subst h
      by_cases hp : old <+: t
      · obtain ⟨b, rfl⟩ := hp
        have hpos := List.length_pos_iff.mpr hne
        have hb := ih b.length (by rw [List.length_append]; omega) b rfl
        rw [replaceAll_append hne, List.count_append, List.count_append, hb,
          List.count_eq_zero.mpr hmark, List.count_eq_zero.mpr hold]
      · cases t with
        | nil => rfl
        | cons a t =>
            rw [replaceAll_cons hp, List.count_cons, List.count_cons,
              ih t.length (Nat.lt_succ_self _) t rfl]

/-- Nothing is replaced in a text that does not have what is looked for. -/
theorem replaceAll_eq_self (h : ¬ old <:+: t) : replaceAll old mark t = t := by
  induction t with
  | nil => rfl
  | cons c t ih =>
      have hp : ¬ old.isPrefixOf (c :: t) = true := fun hp =>
        h (List.isPrefixOf_iff_prefix.mp hp).isInfix
      have ht : ¬ old <:+: t := fun ht => h (ht.trans (List.suffix_cons c t).isInfix)
      show replaceFrom old mark 0 (c :: t) = c :: t
      rw [replaceFrom, if_neg hp]
      exact congrArg (c :: ·) (ih ht)

/-- What stands in a text stands in it for the first time somewhere. -/
theorem exists_first (hne : old ≠ []) (h : old <:+: t) :
    ∃ a b, t = a ++ old ++ b ∧ ¬ old <:+: (a ++ old).dropLast := by
  induction t with
  | nil => exact absurd (List.infix_nil.mp h) hne
  | cons c t ih =>
      by_cases hp : old <+: c :: t
      · obtain ⟨b, hb⟩ := hp
        refine ⟨[], b, hb.symm, fun hin => ?_⟩
        have hle := hin.length_le
        have hpos := List.length_pos_iff.mpr hne
        rw [List.nil_append, List.length_dropLast] at hle
        omega
      · have ht : old <:+: t := by
          rcases List.infix_cons_iff.mp h with h | h
          · exact absurd h hp
          · exact h
        obtain ⟨a, b, rfl, ha⟩ := ih ht
        refine ⟨c :: a, b, rfl, fun hin => ?_⟩
        have hne' : a ++ old ≠ [] := fun h => hne (List.append_eq_nil_iff.mp h).2
        rw [List.cons_append, List.dropLast_cons_of_ne_nil hne'] at hin
        rcases List.infix_cons_iff.mp hin with hin | hin
        · refine hp (hin.trans (List.cons_prefix_cons.mpr ⟨rfl, ?_⟩))
          exact (List.dropLast_prefix _).trans (List.prefix_append _ b)
        · exact ha hin

omit [DecidableEq α] in
theorem not_infix_of_first {a : List α} (hne : old ≠ []) (h : ¬ old <:+: (a ++ old).dropLast) :
    ¬ old <:+: a := by
  intro ha
  rw [List.dropLast_append_of_ne_nil hne] at h
  exact h (ha.trans (List.prefix_append a _).isInfix)

/-- The first occurrence is replaced, and the text behind it is then searched. -/
theorem replaceAll_first {a b : List α} (hne : old ≠ []) (h : ¬ old <:+: (a ++ old).dropLast) :
    replaceAll old mark (a ++ old ++ b) = a ++ mark ++ replaceAll old mark b := by
  induction a with
  | nil =>
      rw [List.nil_append, List.nil_append]
      exact replaceAll_append hne
  | cons c a ih =>
      have hne' : a ++ old ≠ [] := fun h => hne (List.append_eq_nil_iff.mp h).2
      rw [List.cons_append, List.dropLast_cons_of_ne_nil hne'] at h
      have hp : ¬ old <+: c :: (a ++ old ++ b) := by
        intro hp
        refine h (List.IsPrefix.isInfix ?_)
        have hdrop : c :: (a ++ old).dropLast <+: c :: (a ++ old ++ b) :=
          List.cons_prefix_cons.mpr
            ⟨rfl, (List.dropLast_prefix _).trans (List.prefix_append _ b)⟩
        refine List.prefix_of_prefix_length_le hp hdrop ?_
        rw [List.length_cons, List.length_dropLast, List.length_append]
        have := List.length_pos_iff.mpr hne
        omega
      show replaceAll old mark (c :: (a ++ old ++ b)) = _
      rw [replaceAll_cons hp]
      exact congrArg (c :: ·) (ih fun hin => h (hin.trans (List.suffix_cons c _).isInfix))

/-- **Replacing is thorough.** A word that the mark has no part in and that is left stood in
a stretch of the text without what was looked for. -/
theorem infix_replaceAll (hne : old ≠ []) (hp : Apart p mark)
    (h : p <:+: replaceAll old mark t) : ∃ u, u <:+: t ∧ ¬ old <:+: u ∧ p <:+: u := by
  induction ht : t.length using Nat.strong_induction_on generalizing t with
  | _ n ih =>
      by_cases hin : old <:+: t
      · obtain ⟨a, b, rfl, ha⟩ := exists_first hne hin
        rw [replaceAll_first hne ha] at h
        rcases hp.infix_append h with h | h
        · refine ⟨a, List.IsPrefix.isInfix ?_, not_infix_of_first hne ha, h⟩
          rw [List.append_assoc]
          exact List.prefix_append a _
        · have hlt : b.length < n := by
            have := List.length_pos_iff.mpr hne
            simp only [List.length_append] at ht
            omega
          obtain ⟨u, hu, hou, hpu⟩ := ih b.length hlt h rfl
          exact ⟨u, hu.trans (List.suffix_append _ b).isInfix, hou, hpu⟩
      · rw [replaceAll_eq_self hin] at h
        exact ⟨t, List.infix_refl t, hin, h⟩

/-- One string after another replaced by the mark: a word that is left was there, and holds
none of the strings. -/
theorem infix_foldl_replaceAll {forms : List (List α)} (hne : ∀ f ∈ forms, f ≠ [])
    (hp : Apart p mark) (h : p <:+: forms.foldl (fun s f => replaceAll f mark s) t) :
    p <:+: t ∧ ∀ f ∈ forms, ¬ f <:+: p := by
  induction forms generalizing t with
  | nil => exact ⟨h, fun f hf => absurd hf List.not_mem_nil⟩
  | cons f forms ih =>
      obtain ⟨hleft, hforms⟩ := ih (fun g hg => hne g (List.mem_cons_of_mem f hg)) h
      obtain ⟨u, hu, hfu, hpu⟩ := infix_replaceAll (hne f List.mem_cons_self) hp hleft
      refine ⟨hpu.trans hu, ?_⟩
      intro g hg
      rcases List.mem_cons.mp hg with rfl | hg
      · exact fun hgp => hfu (hgp.trans hpu)
      · exact hforms g hg

/-- A text that has none of the strings stays as it is. -/
theorem foldl_replaceAll_of_not_infix {forms : List (List α)} (h : ∀ f ∈ forms, ¬ f <:+: t) :
    forms.foldl (fun s f => replaceAll f mark s) t = t := by
  induction forms with
  | nil => rfl
  | cons f forms ih =>
      rw [List.foldl_cons, replaceAll_eq_self (h f List.mem_cons_self)]
      exact ih fun g hg => h g (List.mem_cons_of_mem f hg)

/-! ## Hiding a word -/

/-- The mark in the place of one occurrence does not spell the word again with the text
around it. -/
def Unspelled (old mark : List α) : Prop :=
  ∀ a b, ¬ old <:+: (a ++ old).dropLast → ¬ old <:+: b → ¬ old <:+: a ++ mark ++ b

/-- **Replacing hides a word in every text exactly when one replacement does.** -/
theorem replaceAll_hides_iff (hne : old ≠ []) :
    (∀ t, ¬ old <:+: replaceAll old mark t) ↔ Unspelled old mark := by
  constructor
  · intro h a b ha hb
    have hab := h (a ++ old ++ b)
    rw [replaceAll_first hne ha, replaceAll_eq_self hb] at hab
    exact hab
  · intro h t
    induction ht : t.length using Nat.strong_induction_on generalizing t with
    | _ n ih =>
        by_cases hin : old <:+: t
        · obtain ⟨a, b, rfl, ha⟩ := exists_first hne hin
          rw [replaceAll_first hne ha]
          refine h a _ ha (ih b.length ?_ b rfl)
          have := List.length_pos_iff.mpr hne
          simp only [List.length_append] at ht
          omega
        · rw [replaceAll_eq_self hin]
          exact hin

omit [DecidableEq α] in
/-- A mark that has no part in the word hides it. -/
theorem Apart.unspelled (h : Apart old mark) (hne : old ≠ []) : Unspelled old mark := by
  intro a b ha hb hin
  rcases h.infix_append hin with hin | hin
  · exact not_infix_of_first hne ha hin
  · exact hb hin

/-- What of the mark can join with the text around it is what it shows of the word. -/
structure Shows (mark old : List α) : Prop where
  inside : ¬ old <:+: mark
  around : ¬ mark <:+: old
  front : ∀ z, z ≠ [] → z <+: mark → z <:+ old → z <+: old
  back : ∀ z, z ≠ [] → z <:+ mark → z <+: old → z <:+ old

/-- Two occurrences of a word overlap in a text: it ends as it begins. -/
def Overlaps (old t : List α) : Prop :=
  ∃ x z y, x ≠ [] ∧ z ≠ [] ∧ old = x ++ z ∧ old = z ++ y ∧ x ++ z ++ y <:+: t

/-- What the replaced text begins with, up to a part of the word, the text began with. -/
theorem Shows.prefix_of_prefix (h : Shows mark old) (hne : old ≠ []) {w : List α} (hw : w <:+ old)
    (hp : w <+: replaceAll old mark t) : w <+: t := by
  by_cases hin : old <:+: t
  · obtain ⟨a, b, rfl, ha⟩ := exists_first hne hin
    rw [replaceAll_first hne ha, List.append_assoc] at hp
    rcases List.prefix_or_prefix_of_prefix hp (List.prefix_append a _) with hwa | ⟨v, rfl⟩
    · rw [List.append_assoc]
      exact hwa.trans (List.prefix_append a _)
    · rw [List.prefix_append_right_inj] at hp
      rw [List.append_assoc, List.prefix_append_right_inj]
      have hv : v <:+ old := (List.suffix_append a v).trans hw
      by_cases hvne : v = []
      · rw [hvne]
        exact List.nil_prefix
      · rcases List.prefix_or_prefix_of_prefix hp (List.prefix_append mark _) with hvm | hmv
        · exact (h.front v hvne hvm hv).trans (List.prefix_append old b)
        · exact absurd (hmv.isInfix.trans hv.isInfix) h.around
  · rw [replaceAll_eq_self hin] at hp
    exact hp

/-- **Where no two occurrences overlap**, such a mark hides the word. -/
theorem Shows.not_infix_replaceAll (h : Shows mark old) (hne : old ≠ []) (ht : ¬ Overlaps old t) :
    ¬ old <:+: replaceAll old mark t := by
  induction hn : t.length using Nat.strong_induction_on generalizing t with
  | _ n ih =>
      by_cases hin : old <:+: t
      · obtain ⟨a, b, rfl, ha⟩ := exists_first hne hin
        have hb : ¬ old <:+: replaceAll old mark b := by
          refine ih b.length ?_ (fun ⟨x, z, y, hx, hz, hxz, hzy, hb⟩ => ht
            ⟨x, z, y, hx, hz, hxz, hzy, hb.trans (List.suffix_append _ b).isInfix⟩) rfl
          have := List.length_pos_iff.mpr hne
          simp only [List.length_append] at hn
          omega
        rw [replaceAll_first hne ha, List.append_assoc]
        intro hleft
        rcases List.infix_append_iff.mp hleft with hleft | hleft | ⟨x, z, hold, hx, hz⟩
        · exact not_infix_of_first hne ha hleft
        · rcases List.infix_append_iff.mp hleft with hleft | hleft | ⟨z, y, hold, hz, hy⟩
          · exact h.inside hleft
          · exact hb hleft
          · -- the end of the mark, and the text behind it
            have hzne : z ≠ [] := by
              rintro rfl
              exact hb (hold ▸ hy.isInfix)
            obtain ⟨x, hx⟩ := h.back z hzne hz (hold ▸ List.prefix_append z y)
            have hxne : x ≠ [] := by
              rintro rfl
              exact h.inside (hx ▸ hz.isInfix)
            have hyb : y <+: b := h.prefix_of_prefix hne (hold ▸ List.suffix_append z y) hy
            refine ht ⟨x, z, y, hxne, hzne, hx.symm, hold, ?_⟩
            rw [hx, List.append_assoc a]
            exact ((List.prefix_append_right_inj old).mpr hyb).isInfix.trans
              (List.suffix_append a _).isInfix
        · -- the text before the mark, and its beginning
          have hzne : z ≠ [] := by
            rintro rfl
            rw [List.append_nil] at hold
            exact not_infix_of_first hne ha (hold ▸ hx.isInfix)
          have hzm : z <+: mark := by
            rcases List.prefix_or_prefix_of_prefix hz (List.prefix_append mark _) with hzm | hmz
            · exact hzm
            · exact absurd (hmz.isInfix.trans (hold ▸ (List.suffix_append x z).isInfix)) h.around
          have hxne : x ≠ [] := by
            rintro rfl
            exact h.inside (hold ▸ hzm.isInfix)
          obtain ⟨y, hy⟩ := h.front z hzne hzm (hold ▸ List.suffix_append x z)
          refine ht ⟨x, z, y, hxne, hzne, hold, hy.symm, ?_⟩
          rw [List.append_assoc, hy]
          obtain ⟨a', rfl⟩ := hx
          exact ⟨a', b, by simp only [List.append_assoc]⟩
      · rw [replaceAll_eq_self hin]
        exact hin

end

end Substring
