import SnmpLens.Render.OwnLine

/-!
# What validation accepts

`ValidateTemplate` and the renderer scan a source each on its own. A source the first has
nothing to say against is cut by the second into literal text without the beginning of a
tag and tags that are known: the blocks follow one another, each closed by its own name,
and every name is one that a lookup answers.
-/

namespace SnmpLens.Render

open Utf8

variable {t : Token} {ts : List Token} {src lit field : Octets}

/-! ## Where a string stands -/

theorem index_prefix {p s : Octets} {n : Nat} (h : index p s = some n) :
    p <+: s.drop n ∧ n ≤ s.length := by
  induction s generalizing n with
  | nil =>
      unfold index at h
      split at h
      · rename_i hp
        rw [List.isEmpty_iff.mp hp]
        obtain rfl := Option.some.inj h
        exact ⟨List.nil_prefix, Nat.le_refl _⟩
      · cases h
  | cons b s ih =>
      unfold index at h
      split at h
      · rename_i hp
        obtain rfl := Option.some.inj h
        exact ⟨List.isPrefixOf_iff_prefix.mp hp, Nat.zero_le _⟩
      · obtain ⟨m, hm, rfl⟩ := Option.map_eq_some_iff.mp h
        exact ⟨(ih hm).1, Nat.succ_le_succ (ih hm).2⟩

theorem index_isSome {p s : Octets} (h : p <:+: s) : (index p s).isSome = true := by
  induction s with
  | nil =>
      obtain rfl := List.infix_nil.mp h
      rfl
  | cons b s ih =>
      unfold index
      split
      · rfl
      · rename_i hp
        rcases List.infix_cons_iff.mp h with h | h
        · exact absurd (List.isPrefixOf_iff_prefix.mpr h) hp
        · rw [Option.isSome_map]
          exact ih h

/-! ## One tag -/

theorem parseTag_some {inner raw : Octets} (h : parseTag inner raw = some t) :
    t.kind ≠ .literal ∧ t.text = raw ∧ validName t.name = true := by
  unfold parseTag at h
  split at h
  · cases h
  · rename_i first rest hinner
    split at h
    · dsimp only at h
      split at h
      · cases h
      · rename_i hv
        obtain rfl := Option.some.inj h
        refine ⟨?_, rfl, by simpa using hv⟩
        dsimp only
        split <;> exact TokenKind.noConfusion
    · split at h
      · dsimp only at h
        split at h
        · cases h
        · rename_i hv
          obtain rfl := Option.some.inj h
          exact ⟨TokenKind.noConfusion, rfl, by simpa using hv⟩
      · split at h
        · cases h
        · rename_i hv
          obtain rfl := Option.some.inj h
          exact ⟨TokenKind.noConfusion, rfl, by simpa using hv⟩

theorem ne_nil_of_validName {s : Octets} (h : validName s = true) : s ≠ [] := by
  rintro rfl
  cases h

theorem raw_eq {s : Octets} {stop : Nat} (hopen : opener <+: s)
    (hstop : index closer (s.drop 2) = some stop) :
    s.take (stop + 4) = opener ++ (s.drop 2).take stop ++ closer := by
  obtain ⟨body, rfl⟩ := hopen
  have hdrop : (opener ++ body).drop 2 = body := rfl
  rw [hdrop] at hstop ⊢
  obtain ⟨⟨rest, hrest⟩, hle⟩ := index_prefix hstop
  have htake : body.take (stop + 2) = body.take stop ++ closer := by
    rw [List.take_add, ← hrest]
    rfl
  show chr '\x7b' :: chr '\x7b' :: body.take (stop + 2) = _
  rw [htake, List.append_assoc]
  rfl

/-! ## The tokens of a source -/

theorem source_append (as bs : List Token) : source (as ++ bs) = source as ++ source bs :=
  List.flatMap_append

theorem source_flush (lit : Octets) : source (flush lit) = lit := by
  cases lit with
  | nil => rfl
  | cons b lit => exact List.append_nil _

/-- **Nothing of a source is lost**: the tokens put together are the source. -/
theorem source_scanFrom (skip : Nat) (lit src : Octets) :
    source (scanFrom skip lit src) = lit ++ src.drop skip := by
  induction src generalizing skip lit with
  | nil =>
      have hscan : scanFrom skip lit [] = flush lit := by cases skip <;> rfl
      rw [hscan, source_flush, List.drop_nil, List.append_nil]
  | cons b src ih =>
      cases skip with
      | succ skip => exact ih skip lit
      | zero =>
          rw [scanFrom, List.drop_zero]
          split
          · rw [ih, List.drop_zero, List.append_assoc, List.singleton_append]
          · split
            · exact source_flush _
            · rename_i stop hstop
              have hwhole : (b :: src).take (stop + 4) ++ src.drop (stop + 3) = b :: src :=
                List.take_append_drop (stop + 4) (b :: src)
              dsimp only
              split
              · rw [ih, List.append_assoc, hwhole]
              · rename_i tok htok
                rw [source_append, source_flush, source_cons, ih, (parseTag_some htok).2.1,
                  List.nil_append, hwhole]

/-! ## Acceptance -/

/-- A tag that nothing is wrong with. -/
structure Known (t : Token) : Prop where
  name : checkName t = none
  fallback : t.hasFall = true → ¬ opener <:+: t.fallback

/-- Blocks one behind the other, `opened` being open in front. -/
def WellNested : Octets → List Token → Prop
  | opened, [] => opened = []
  | opened, t :: ts =>
      match t.kind with
      | .literal => WellNested opened ts
      | .subst => WellNested opened ts
      | .blockOpen => opened = [] ∧ t.name ≠ [] ∧ WellNested t.name ts
      | .blockClose => opened ≠ [] ∧ t.name = opened ∧ WellNested [] ts

/-- What an accepted source is cut into. -/
structure Accepted (ts : List Token) (opened : Octets) : Prop where
  cut : Cut true ts
  nested : WellNested opened ts
  known : ∀ t ∈ ts, t.kind ≠ .literal → Known t

variable {opened : Octets × Nat}

theorem checkTag_nil {offset : Nat} (h : (checkTag field offset opened t).1 = []) :
    Known t ∧ checkBlock opened.1 t = none
      ∧ (checkTag field offset opened t).2 = openedBehind opened t offset := by
  unfold checkTag at h ⊢
  dsimp only at h ⊢
  cases hcheck : (checkName t).or (checkBlock opened.1 t) with
  | some message =>
      rw [hcheck] at h
      exact absurd h (by simp)
  | none =>
      rw [hcheck] at h
      obtain ⟨hname, hblock⟩ := Option.or_eq_none_iff.mp hcheck
      refine ⟨⟨hname, fun hfall hin => ?_⟩, hblock, rfl⟩
      dsimp only at h
      rw [if_pos ⟨hfall, index_isSome hin⟩] at h
      cases h

theorem WellNested.cons_tag {offset : Nat} (hk : t.kind ≠ .literal) (hname : t.name ≠ [])
    (hblock : checkBlock opened.1 t = none) (h : WellNested (openedBehind opened t offset).1 ts) :
    WellNested opened.1 (t :: ts) := by
  unfold WellNested
  unfold checkBlock at hblock
  unfold openedBehind at h
  cases hkind : t.kind with
  | literal => exact absurd hkind hk
  | subst =>
      rw [hkind] at h
      exact h
  | blockOpen =>
      rw [hkind] at h hblock
      dsimp only at hblock ⊢
      split at hblock
      · cases hblock
      · rename_i hopen
        exact ⟨not_not.mp hopen, hname, h⟩
  | blockClose =>
      rw [hkind] at h hblock
      dsimp only at hblock ⊢
      split at hblock
      · cases hblock
      · rename_i hopen
        split at hblock
        · cases hblock
        · rename_i heq
          exact ⟨hopen, (not_not.mp heq).symm, h⟩

theorem opener_not_infix_singleton (s : Octets) : ¬ opener <:+: s.take 1 := by
  intro h
  have hle := h.length_le
  have htake := List.length_take_le 1 s
  have hlen : opener.length = 2 := rfl
  omega

/-- The literal text grows by one character that does not begin a tag. -/
theorem opener_not_infix_append {b : UInt8} (hlit : ¬ opener <:+: lit ++ [b])
    (hb : ¬ opener <+: b :: src) : ¬ opener <:+: lit ++ [b] ++ src.take 1 := by
  cases src with
  | nil => rwa [List.take_nil, List.append_nil]
  | cons c src =>
      intro h
      rcases List.infix_append_iff.mp h with h | h | ⟨l, r, hlr, hl, hr⟩
      · exact hlit h
      · exact opener_not_infix_singleton (c :: src) h
      · have hr' : r <+: [c] := hr
        rcases List.prefix_cons_iff.mp hr' with rfl | ⟨r', rfl, hnil⟩
        · rw [List.append_nil] at hlr
          exact hlit (hlr ▸ hl.isInfix)
        · obtain rfl := List.prefix_nil.mp hnil
          have hsplit : [chr '\x7b'] ++ [chr '\x7b'] = l ++ [c] := hlr
          obtain ⟨rfl, hc⟩ := List.append_inj' hsplit rfl
          rcases List.suffix_concat_iff.mp hl with hnil | ⟨t, ht, _⟩
          · exact absurd hnil (List.cons_ne_nil _ _)
          · have hb' : [chr '\x7b'] = [b] := (@List.append_inj' _ [] _ _ _ ht rfl).2
            refine hb ?_
            rw [← List.singleton_inj.mp hb', ← List.singleton_inj.mp hc]
            exact ⟨src, rfl⟩

theorem cut_flush (hlit : ¬ opener <:+: lit) (h : ts = [] ∨ ∃ t rest, ts = t :: rest ∧ IsTag t ∧ Cut true rest) :
    Cut true (flush lit ++ ts) := by
  have htail : Cut false ts := by
    rcases h with rfl | ⟨t, rest, rfl, ht, hrest⟩
    · exact .nil
    · exact .tag ht hrest
  cases lit with
  | nil => exact htail.free
  | cons b lit => exact .literal rfl (List.cons_ne_nil b lit) hlit htail

theorem wellNested_flush {opened : Octets} (h : WellNested opened ts) :
    WellNested opened (flush lit ++ ts) := by
  cases lit <;> exact h

theorem mem_flush {t : Token} (h : t ∈ flush lit) : t.kind = .literal := by
  cases lit with
  | nil => exact absurd h List.not_mem_nil
  | cons b lit => rw [List.mem_singleton.mp h]

theorem accepted_scanFrom {skip offset : Nat} (hlit : ¬ opener <:+: lit ++ (src.drop skip).take 1)
    (h : validateFrom field skip offset opened src = []) :
    Accepted (scanFrom skip lit src) opened.1 := by
  induction src generalizing skip lit offset opened with
  | nil =>
      have hscan : scanFrom skip lit [] = flush lit ++ [] := by
        rw [List.append_nil]
        cases skip <;> rfl
      have hend : checkEnd field opened = [] := by
        cases skip <;> exact h
      have hopened : opened.1 = [] := by
        unfold checkEnd at hend
        split at hend
        · assumption
        · cases hend
      rw [List.drop_nil, List.take_nil, List.append_nil] at hlit
      rw [hscan]
      refine ⟨cut_flush hlit (.inl rfl), wellNested_flush hopened, ?_⟩
      intro t ht hk
      rw [List.append_nil] at ht
      exact absurd (mem_flush ht) hk
  | cons b src ih =>
      cases skip with
      | succ skip => exact ih hlit h
      | zero =>
          rw [validateFrom] at h
          rw [scanFrom]
          have hlit' : ¬ opener <:+: lit ++ [b] := hlit
          split at h
          · rename_i hb
            have hb' : ¬ opener <+: b :: src := by
              intro hp
              have hpre : (octets "\x7b\x7b").isPrefixOf (b :: src) = true :=
                List.isPrefixOf_iff_prefix.mpr hp
              rw [hpre] at hb
              exact Bool.noConfusion hb
            rw [if_pos hb]
            exact ih (opener_not_infix_append hlit' hb') h
          · rename_i hb
            rw [if_neg hb]
            have hb' : opener <+: b :: src := by
              have hpre : (octets "\x7b\x7b").isPrefixOf (b :: src) = true := by
                simpa only [Bool.not_eq_true, Bool.not_eq_false'] using hb
              exact List.isPrefixOf_iff_prefix.mp hpre
            split at h
            · exact absurd h (List.cons_ne_nil _ _)
            · rename_i stop hstop
              dsimp only at h ⊢
              have hraw := raw_eq hb' hstop
              split at h
              · exact absurd h (List.cons_ne_nil _ _)
              · rename_i tok htok
                obtain ⟨herrs, hrest⟩ := List.append_eq_nil_iff.mp h
                obtain ⟨hknown, hblock, hbehind⟩ := checkTag_nil herrs
                rw [hbehind] at hrest
                obtain ⟨hk, htext, hname⟩ := parseTag_some htok
                have hrec : Accepted (scanFrom (stop + 3) [] src) _ :=
                  ih (opener_not_infix_singleton _) hrest
                have htag : IsTag tok := ⟨hk, _, htext.trans hraw, by rw [htext]; exact htok⟩
                refine ⟨cut_flush (fun hin => hlit' (hin.trans (List.prefix_append _ _).isInfix))
                  (.inr ⟨tok, _, rfl, htag, hrec.cut⟩), wellNested_flush
                    (WellNested.cons_tag hk (ne_nil_of_validName hname) hblock hrec.nested), ?_⟩
                intro t ht hkt
                rcases List.mem_append.mp ht with ht | ht
                · exact absurd (mem_flush ht) hkt
                · rcases List.mem_cons.mp ht with rfl | ht
                  · exact hknown
                  · exact hrec.known t ht hkt

/-- **An accepted source** is cut into text, known tags and blocks that are closed. -/
theorem accepted_of_validateField (h : validateField field src = []) :
    Accepted (scanFrom 0 [] src) [] := by
  unfold validateField at h
  split at h
  · rename_i hsrc
    subst hsrc
    exact ⟨.nil, rfl, fun t ht => absurd ht List.not_mem_nil⟩
  · split at h
    · cases h
    · exact accepted_scanFrom (opener_not_infix_singleton _) h

end SnmpLens.Render
