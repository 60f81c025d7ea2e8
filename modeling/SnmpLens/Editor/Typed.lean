import SnmpLens.Editor.Store

/-!
# Nothing typed in the MIB editor is lost

What is owed to the file that is open is in its buffer; what is owed to any other file is in its
draft. The two meet where a file is left: a timer was set when the text was typed, so that what is
owed to the open file is in its draft already or a flush will write it. `Kept` says so, and every
`Careful` step keeps it.
-/

namespace SnmpLens.MibEditor

open Utf8 Strings Filepath Machine

namespace Editor

/-- The editor between two steps. -/
structure Kept (paths : Paths) (s : Editor) : Prop where
  /-- What is owed to the open file is its buffer, and a flush knows. -/
  here : ∀ source text, s.source = some source → s.owed (fileOf paths source) = some text →
    s.buffer = text ∧ text ≠ source.content ∧
      (s.draftTimer = true ∨ s.draftOf paths (fileOf paths source) = some text)
  /-- What is owed to another file is its draft. -/
  elsewhere : ∀ file text, s.source.map (fileOf paths) ≠ some file → s.owed file = some text →
    s.draftOf paths file = some text
  owed : ∀ file text, s.owed file = some text → file ∈ s.known
  open_ : ∀ source, s.source = some source → fileOf paths source ∈ s.known
  places : ∀ file ∈ s.known, ∀ other ∈ s.known, file.draft paths = other.draft paths → file = other
  placed : ∀ file ∈ s.known, file.draft paths ≠ none
  received : ∀ r ∈ s.received, r.2 ∈ s.known ∧ r.2.draft paths = some r.1
  content : ∀ source, s.source = some source → (fileOf paths source, source.content) ∈ s.contents
  reads : ∀ i name token source draft, s.opens i = some (.drafting name token source draft) →
    (fileOf paths source, source.content) ∈ s.contents

variable {paths : Paths} {s t : Editor} {source : Source}

theorem Kept.safe (h : s.Kept paths) : s.Safe paths where
  typed file text howed := by
    by_cases hopen : s.source.map (fileOf paths) = some file
    · obtain ⟨source, hsource, rfl⟩ := Option.map_eq_some_iff.mp hopen
      exact .inl ⟨hopen, (h.here source text hsource howed).1⟩
    · exact .inr (h.elsewhere file text hopen howed)
  drafts r hr file hfile hplace := by
    obtain ⟨hknown, hdraft⟩ := h.received r hr
    exact h.places file hfile r.2 hknown (hplace.trans hdraft.symm)
  content := h.content

/-! ## What the writes of a draft do -/

theorem draftOf_of_place {file : File} {place : Octets} (h : file.draft paths = some place) :
    s.draftOf paths file = s.drafts place := by
  rw [draftOf, h, Option.bind_some]

theorem Kept.place (h : s.Kept paths) {file : File} (hfile : file ∈ s.known) :
    ∃ place, file.draft paths = some place :=
  Option.ne_none_iff_exists'.mp (h.placed file hfile)

theorem Kept.drafts_elsewhere (h : s.Kept paths) {file other : File} (hfile : file ∈ s.known)
    (hother : other ∈ s.known) (hne : other ≠ file) {place : Octets}
    (hplace : file.draft paths = some place) (text : Option Octets) :
    (other.draft paths).bind (fun p => if p = place then text else s.drafts p)
      = s.draftOf paths other := by
  obtain ⟨p, hp⟩ := h.place hother
  have hapart : p ≠ place := by
    rintro rfl
    exact hne (h.places other hother file hfile (hp.trans hplace.symm))
  rw [draftOf_of_place hp, hp, Option.bind_some, if_neg hapart]

/-- **The draft of the open file is written, or is discarded when there is nothing to write.** -/
theorem Kept.put (h : s.Kept paths) (hsource : s.source = some source) {place : Octets}
    (hplace : (fileOf paths source).draft paths = some place) {text : Option Octets}
    (htext : s.buffer ≠ source.content → text = some s.buffer) {received : List (Octets × File)}
    (hreceived : ∀ r ∈ received, r ∈ s.received ∨ r = (place, fileOf paths source))
    (timer : Option Octets) (draftTimer : Bool) :
    Kept paths { s with
      drafts := fun p => if p = place then text else s.drafts p
      received, timer, draftTimer } := by
  have hopen := h.open_ source hsource
  refine
    { here := fun src t hsrc howed => ?_
      elsewhere := fun file t hfile howed => ?_
      owed := h.owed
      open_ := h.open_
      places := h.places
      placed := h.placed
      received := fun r hr => ?_
      content := h.content
      reads := h.reads }
  · obtain rfl : source = src := Option.some.inj (hsource.symm.trans hsrc)
    obtain ⟨hbuffer, hne, -⟩ := h.here source t hsource howed
    refine ⟨hbuffer, hne, .inr ?_⟩
    rw [draftOf_of_place hplace]
    show (if place = place then text else _) = _
    rw [if_pos rfl, htext (hbuffer ▸ hne), hbuffer]
  · have hne : file ≠ fileOf paths source := by
      rintro rfl
      exact hfile (congrArg (Option.map _) hsource)
    exact (h.drafts_elsewhere hopen (h.owed file t howed) hne hplace text).trans
      (h.elsewhere file t hfile howed)
  · rcases hreceived r hr with hr | rfl
    · exact h.received r hr
    · exact ⟨hopen, hplace⟩

/-- Settling the draft of the open file loses nothing, whatever becomes of the timer. -/
theorem Kept.settle (h : s.Kept paths) (hsource : s.source = some source) (timer : Option Octets)
    (draftTimer : Bool) :
    Kept paths { s.settleDraft paths source with timer, draftTimer } := by
  obtain ⟨place, hplace⟩ := h.place (h.open_ source hsource)
  have hpath : draftPath paths (draftKey source) = some place :=
    (draftPath_draftKey paths source).trans hplace
  unfold settleDraft isDirty
  by_cases hdirty : s.buffer = source.content
  · simp only [hdirty, bne_self_eq_false, Bool.false_eq_true, if_false, dropDraft, hpath]
    exact hdirty ▸ h.put hsource hplace (fun hne => absurd hdirty hne) (fun r hr => .inl hr) timer
      draftTimer
  · simp only [bne_iff_ne.mpr hdirty, if_true, saveDraft, hpath]
    exact h.put hsource hplace (fun _ => rfl) (fun r hr => (List.mem_cons.mp hr).symm) timer draftTimer

/-- Only the timer changes. -/
theorem Kept.timed (h : s.Kept paths) (timer : Option Octets) : Kept paths { s with timer } where
  here := h.here
  elsewhere := h.elsewhere
  owed := h.owed
  open_ := h.open_
  places := h.places
  placed := h.placed
  received := h.received
  content := h.content
  reads := h.reads

theorem Kept.flushDraft (h : s.Kept paths) : Kept paths (s.flushDraft paths) := by
  unfold Editor.flushDraft
  split
  · exact h
  · split
    · rename_i hsource
      exact
        { h with
          here := fun src text hsrc => by
            rw [hsource] at hsrc
            cases hsrc }
    · rename_i source hsource
      exact h.settle hsource none false

theorem Kept.fire (h : s.Kept paths) (key : Octets) : Kept paths (s.fire paths key) := by
  unfold Editor.fire
  split
  · exact h.timed none
  · rename_i source hsource
    split
    · exact h.timed none
    · exact h.settle hsource none _

/-! ## What becomes of what is owed -/

/-- What is owed to a file is given up. -/
theorem Kept.forget (h : s.Kept paths) (file : File) : Kept paths (s.owes file none) := by
  have hold : ∀ {f : File} {text : Octets}, (s.owes file none).owed f = some text →
      s.owed f = some text := by
    intro f text howed
    change (if f = file then none else s.owed f) = some text at howed
    split at howed
    · cases howed
    · exact howed
  exact
    { h with
      here := fun src text hsrc howed => h.here src text hsrc (hold howed)
      elsewhere := fun f text hf howed => h.elsewhere f text hf (hold howed)
      owed := fun f text howed => h.owed f text (hold howed) }

/-- A draft goes at whose place nothing is owed. -/
theorem Kept.drop (h : s.Kept paths) {place : Octets}
    (hfree : ∀ file text, s.owed file = some text → file.draft paths ≠ some place)
    (timer : Option Octets) :
    Kept paths { s with
      timer
      drafts := fun p => if p = place then none else s.drafts p } := by
  have hsame : ∀ file text, s.owed file = some text →
      (file.draft paths).bind (fun p => if p = place then none else s.drafts p)
        = s.draftOf paths file := by
    intro file text howed
    obtain ⟨p, hp⟩ := h.place (h.owed file text howed)
    have hne : p ≠ place := by
      rintro rfl
      exact hfree file text howed hp
    rw [draftOf_of_place hp, hp, Option.bind_some, if_neg hne]
  exact
    { h with
      here := fun src text hsrc howed => by
        obtain ⟨hbuffer, hne, hsafe⟩ := h.here src text hsrc howed
        exact ⟨hbuffer, hne, hsafe.imp_right fun hdraft => (hsame _ text howed).trans hdraft⟩
      elsewhere := fun f text hf howed => (hsame f text howed).trans (h.elsewhere f text hf howed) }

theorem Kept.discardDraft (h : s.Kept paths) {name : Octets}
    (hfree : ∀ place, draftPath paths name = some place →
      ∀ file text, s.owed file = some text → file.draft paths ≠ some place) :
    Kept paths (s.discardDraft paths name) := by
  unfold Editor.discardDraft
  split
  · exact h.timed none
  · unfold dropDraft
    split
    · exact h.timed none
    · rename_i place hplace
      exact h.drop (hfree place hplace) none

/-- The draft at the place of a file to which nothing is owed is nobody's loss. -/
theorem Kept.free (h : s.Kept paths) {file : File} (hfile : file ∈ s.known)
    (hnone : s.owed file = none) {place : Octets} (hplace : file.draft paths = some place) :
    ∀ f text, s.owed f = some text → f.draft paths ≠ some place := by
  intro f text howed hf
  obtain rfl := h.places f (h.owed f text howed) file hfile (hf.trans hplace.symm)
  rw [hnone] at howed
  cases howed

/-- **Another file is shown, or the same one again**: what is owed to the one that was open is in
its draft, and what is owed to the one shown is its buffer. -/
theorem Kept.shows (h : s.Kept paths) (buffer : Octets) (owed : Option Octets)
    (hleaves : ∀ src text, s.source = some src → fileOf paths src ≠ fileOf paths source →
      s.owed (fileOf paths src) = some text → s.draftOf paths (fileOf paths src) = some text)
    (hapart : s.Apart paths (fileOf paths source))
    (hcontent : (fileOf paths source, source.content) ∈ s.contents)
    (howed : ∀ text, owed = some text → buffer = text ∧ text ≠ source.content ∧
      (s.draftTimer = true ∨ s.draftOf paths (fileOf paths source) = some text)) :
    Kept paths (s.shows paths source buffer owed) := by
  refine
    { here := fun src text hsrc ho => ?_
      elsewhere := fun file text hfile ho => ?_
      owed := fun file text ho => ?_
      open_ := fun src hsrc => ?_
      places := fun file hfile other hother hplace => ?_
      placed := fun file hfile => ?_
      received := fun r hr => ?_
      content := fun src hsrc => ?_
      reads := h.reads }
  · obtain rfl := Option.some.inj hsrc
    exact howed text (if_pos rfl |>.symm.trans ho)
  · have hne : file ≠ fileOf paths source := by
      rintro rfl
      exact hfile rfl
    have hold : s.owed file = some text := (if_neg hne |>.symm.trans ho)
    by_cases hopen : s.source.map (fileOf paths) = some file
    · obtain ⟨src, hsrc, rfl⟩ := Option.map_eq_some_iff.mp hopen
      exact hleaves src text hsrc hne hold
    · exact h.elsewhere file text hopen hold
  · by_cases hne : file = fileOf paths source
    · exact List.mem_cons.mpr (.inl hne)
    · exact List.mem_cons_of_mem _ (h.owed file text (if_neg hne |>.symm.trans ho))
  · obtain rfl := Option.some.inj hsrc
    exact List.mem_cons_self
  · rcases List.mem_cons.mp hfile with rfl | hfile
    · rcases List.mem_cons.mp hother with rfl | hother
      · rfl
      · exact (hapart.2 other hother hplace.symm).symm
    · rcases List.mem_cons.mp hother with rfl | hother
      · exact hapart.2 file hfile hplace
      · exact h.places file hfile other hother hplace
  · rcases List.mem_cons.mp hfile with rfl | hfile
    · exact hapart.1
    · exact h.placed file hfile
  · obtain ⟨hknown, hplace⟩ := h.received r hr
    exact ⟨List.mem_cons_of_mem _ hknown, hplace⟩
  · obtain rfl := Option.some.inj hsrc
    exact hcontent

/-- What is owed to a file that can be left is in its draft. -/
theorem Kept.left (h : s.Kept paths) (hleaves : s.Leaves paths) (hsource : s.source = some source)
    {text : Octets} (howed : s.owed (fileOf paths source) = some text) :
    s.draftOf paths (fileOf paths source) = some text := by
  obtain ⟨hbuffer, hne, hsafe⟩ := h.here source text hsource howed
  rcases hleaves source hsource with htimer | hclean | hdraft
  · exact hsafe.resolve_left (by rw [htimer]; exact Bool.false_ne_true)
  · exact absurd (hbuffer.symm.trans hclean) hne
  · rw [hdraft, hbuffer]

/-! ## Every step -/

theorem kept_setBuffer (h : s.Kept paths) (buffer : Octets) :
    Kept paths (s.setBuffer paths buffer) := by
  unfold Editor.setBuffer
  split
  · rename_i hsource
    unfold scheduleDraft
    split
    · exact
        { h with
          here := fun src text hsrc => by
            change s.source = some src at hsrc
            rw [hsource] at hsrc
            cases hsrc }
    · rename_i source hsome
      change s.source = some source at hsome
      rw [hsource] at hsome
      cases hsome
  · rename_i source hsource
    have htimed : scheduleDraft { s with buffer } =
        { s with buffer, timer := some (draftKey source), draftTimer := true } := by
      unfold scheduleDraft
      split
      · rename_i hnone
        change s.source = none at hnone
        rw [hsource] at hnone
        cases hnone
      · rename_i src hsome
        obtain rfl : source = src := Option.some.inj (hsource.symm.trans hsome)
        rfl
    rw [htimed]
    refine
      { h with
        here := fun src text hsrc howed => ?_
        elsewhere := fun file text hfile howed => ?_
        owed := fun file text howed => ?_ }
    · obtain rfl : source = src := Option.some.inj (hsource.symm.trans hsrc)
      change (if fileOf paths source = fileOf paths source then _ else _) = some text at howed
      rw [if_pos rfl] at howed
      split at howed
      · cases howed
      · rename_i hne
        obtain rfl := Option.some.inj howed
        exact ⟨rfl, hne, .inl rfl⟩
    · have hne : file ≠ fileOf paths source := by
        rintro rfl
        exact hfile (congrArg (Option.map _) hsource)
      exact h.elsewhere file text hfile ((if_neg hne).symm.trans howed)
    · by_cases hfile : file = fileOf paths source
      · exact hfile ▸ h.open_ source hsource
      · exact h.owed file text ((if_neg hfile).symm.trans howed)

/-- The calls of `open` that go on are those with a file that was read. -/
theorem Kept.reopens (h : s.Kept paths) {opens : Nat → Option Opening} (openToken : Nat)
    (hreads : ∀ i name token source draft, opens i = some (.drafting name token source draft) →
      (fileOf paths source, source.content) ∈ s.contents) :
    Kept paths { s with opens, openToken } :=
  { h with reads := hreads }

theorem Kept.closes (h : s.Kept paths) (i : Nat) : Kept paths (s.closes i) :=
  h.reopens s.openToken fun j name token source draft hj => by
    split at hj
    · cases hj
    · exact h.reads j name token source draft hj

theorem Kept.moves (h : s.Kept paths) (i : Nat) {o : Opening}
    (ho : ∀ name token source draft, o = .drafting name token source draft →
      (fileOf paths source, source.content) ∈ s.contents) : Kept paths (s.moves i o) :=
  h.reopens s.openToken fun j name token source draft hj => by
    split at hj
    · exact ho name token source draft (Option.some.inj hj)
    · exact h.reads j name token source draft hj

/-- More is known of what files have contained. -/
theorem Kept.learns (h : s.Kept paths) (file : File) (content : Octets) :
    Kept paths { s with contents := (file, content) :: s.contents } :=
  { h with
    content := fun src hsrc => List.mem_cons_of_mem _ (h.content src hsrc)
    reads := fun i name token source draft hi =>
      List.mem_cons_of_mem _ (h.reads i name token source draft hi) }

theorem kept_opened (h : s.Kept paths) {i : Nat} (hok : s.Careful paths (.opened i))
    (ht : s.step paths (.opened i) = some t) : t.Kept paths := by
  simp only [step] at ht
  split at ht
  · rename_i name token source draft hopens
    split at ht
    · obtain rfl := Option.some.inj ht
      exact h.closes i
    · rename_i hcurrent
      obtain rfl := Option.some.inj ht
      simp only [Careful, hopens] at hok
      obtain ⟨hleaves, hapart, -, hdraft⟩ := hok (not_not.mp hcurrent)
      have hrecovers : ∀ text, s.owed (fileOf paths source) = some text → text ≠ source.content →
          s.draftOf paths (fileOf paths source) = some text ∧ recovered source draft = text := by
        intro text howed hne
        have hkept : s.draftOf paths (fileOf paths source) = some text := by
          by_cases hopen : s.source.map (fileOf paths) = some (fileOf paths source)
          · obtain ⟨src, hsrc, heq⟩ := Option.map_eq_some_iff.mp hopen
            rw [← heq] at howed ⊢
            exact h.left hleaves hsrc howed
          · exact h.elsewhere _ text hopen howed
        obtain ⟨rfl, hnil⟩ := hdraft text hkept
        exact ⟨hkept, if_pos ⟨hnil, hne⟩⟩
      refine Kept.shows (h.closes i) _ _ (fun src text hsrc _ howed => h.left hleaves hsrc howed) hapart
        (h.reads i name token source draft hopens) fun text howed => ?_
      unfold owedBut at howed
      split at howed
      · cases howed
      · rename_i hcontent
        have hne : text ≠ source.content := by
          rintro rfl
          exact hcontent howed
        obtain ⟨hkept, hbuffer⟩ := hrecovers text howed hne
        exact ⟨hbuffer, hne, .inr hkept⟩
  · cases ht

theorem kept_openSource (h : s.Kept paths) {restored : Bool}
    (hok : s.Careful paths (.openSource source restored)) :
    Kept paths (s.openSource paths source restored) := by
  obtain ⟨hover, hapart, hgone⟩ := hok
  have hlearns := (h.learns (fileOf paths source) source.content).reopens
    (s.openToken + 1) (h.learns (fileOf paths source) source.content).reads
  -- what is owed to the file is given up, or is its content
  have hnone : (if restored then none else s.owedBut (fileOf paths source) source.content) = none := by
    rcases hgone with rfl | hkept
    · rfl
    · rw [ite_eq_left_iff]
      intro hrestored
      unfold owedBut
      split
      · rfl
      · rename_i hcontent
        by_contra howed
        obtain ⟨text, howed⟩ := Option.ne_none_iff_exists'.mp howed
        refine hcontent ?_
        have hdraft : s.draftOf paths (fileOf paths source) = some text := by
          by_cases hopen : s.source.map (fileOf paths) = some (fileOf paths source)
          · obtain ⟨src, hsrc, heq⟩ := Option.map_eq_some_iff.mp hopen
            rw [← heq] at howed ⊢
            exact h.left (hover.resolve_left fun hsame => hrestored hsame.1) hsrc howed
          · exact h.elsewhere _ text hopen howed
        rw [howed, hkept text hdraft]
  have hshown := hlearns.shows source.content none
    (fun src text hsrc hne howed => by
      rcases hover with ⟨-, hsame⟩ | hleaves
      · exact absurd (Option.some.inj ((congrArg (Option.map _) hsrc).symm.trans hsame)) hne
      · exact h.left hleaves hsrc howed)
    hapart List.mem_cons_self (fun text howed => by cases howed)
  unfold Editor.openSource
  rw [hnone]
  refine hshown.discardDraft fun place hplace => ?_
  rw [draftPath_draftKey] at hplace
  exact hshown.free List.mem_cons_self (if_pos rfl) hplace

theorem owes_discardDraft (s : Editor) (name : Octets) (file : File) (text : Option Octets) :
    (s.discardDraft paths name).owes file text = (s.owes file text).discardDraft paths name := by
  unfold Editor.discardDraft dropDraft
  split
  · rfl
  · split <;> rfl

theorem source_discardDraft (s : Editor) (name : Octets) :
    (s.discardDraft paths name).source = s.source := by
  unfold Editor.discardDraft dropDraft
  split
  · rfl
  · split <;> rfl

theorem kept_revert (h : s.Kept paths) : Kept paths (s.revert paths) := by
  unfold Editor.revert
  split
  · unfold Editor.discardDraft
    rw [if_pos rfl]
    exact h.timed none
  · rename_i source hsource
    have hforget := h.forget (fileOf paths source)
    have hnone : (s.owes (fileOf paths source) none).owed (fileOf paths source) = none := if_pos rfl
    rw [owes_discardDraft]
    -- nothing is owed to the file, so that its buffer is its content
    have hbuffer : Kept paths { s.owes (fileOf paths source) none with buffer := source.content } :=
      { hforget with
        here := fun src text hsrc howed => by
          obtain rfl : source = src := Option.some.inj (hsource.symm.trans hsrc)
          cases hnone.symm.trans howed }
    refine Kept.discardDraft hbuffer fun place hplace => ?_
    rw [draftPath_draftKey] at hplace
    exact hbuffer.free (h.open_ source hsource) hnone hplace

theorem kept_discardDraft (h : s.Kept paths) {name : Octets}
    (hok : s.Careful paths (.discardDraft name)) :
    Kept paths ((s.discardDraft paths name).settled paths) := by
  unfold settled
  rw [source_discardDraft]
  split
  · rename_i hsource
    refine h.discardDraft fun place hplace file text howed hfile => ?_
    rcases hok place hplace with hempty | hopen
    · have hkept := h.elsewhere file text (by rw [hsource]; exact nofun) howed
      rw [draftOf_of_place hfile, hempty] at hkept
      cases hkept
    · rw [hsource] at hopen
      cases hopen
  · rename_i source hsource
    rw [owes_discardDraft]
    have hforget := h.forget (fileOf paths source)
    have hnone : (s.owes (fileOf paths source) none).owed (fileOf paths source) = none := if_pos rfl
    refine hforget.discardDraft fun place hplace file text howed hfile => ?_
    rcases hok place hplace with hempty | hopen
    · -- the text of another file would be at a place where there is no draft
      have hne : s.source.map (fileOf paths) ≠ some file := by
        rw [hsource]
        rintro heq
        obtain rfl := Option.some.inj heq
        cases hnone.symm.trans howed
      have hkept := hforget.elsewhere file text hne howed
      rw [draftOf_of_place hfile] at hkept
      cases hempty.symm.trans hkept
    · rw [hsource] at hopen
      exact hforget.free (h.open_ source hsource) hnone hopen file text howed hfile

theorem fileOf_named (source : Source) (written : Octets) :
    fileOf paths (named source written) = .mib (cleanName paths source.name) := rfl

theorem fileOf_mib (hmib : source.external = false) :
    fileOf paths source = .mib (cleanName paths source.name) := by
  rw [fileOf, if_neg (by rw [hmib]; exact Bool.false_ne_true)]

/-- **What a save was answered for is the content of the file, which may have a new name.** -/
theorem kept_markSaved (h : s.Kept paths) (hsource : s.source = some source) {written : Octets}
    (hwritten : (.mib (cleanName paths source.name), written) ∈ s.contents)
    (hnew : source.external = true → s.Apart paths (.mib (cleanName paths source.name)) ∧
      s.draftOf paths (.mib (cleanName paths source.name)) = none ∧
      (s.buffer = written ∨ s.draftTimer = true)) :
    Kept paths (s.markSaved paths written) := by
  have hopen := h.open_ source hsource
  have hforget := h.forget (fileOf paths source)
  have hnone : (s.owes (fileOf paths source) none).owed (fileOf paths source) = none := if_pos rfl
  have hapart : (s.owes (fileOf paths source) none).Apart paths
      (fileOf paths (named source written)) := by
    rw [fileOf_named]
    cases hexternal : source.external with
    | true => exact (hnew hexternal).1
    | false =>
        rw [← fileOf_mib hexternal]
        exact ⟨h.placed _ hopen, fun other hother hplace => h.places other hother _ hopen hplace⟩
  -- nothing is owed yet to the file under its new name
  have hfresh : (s.owes (fileOf paths source) none).owed (fileOf paths (named source written)) = none := by
    rw [fileOf_named]
    cases hexternal : source.external with
    | false =>
        rw [← fileOf_mib hexternal]
        exact hnone
    | true =>
        by_contra howed
        obtain ⟨text, howed⟩ := Option.ne_none_iff_exists'.mp howed
        have hother : s.source.map (fileOf paths) ≠ some (.mib (cleanName paths source.name)) := by
          rw [hsource, Option.map_some, fileOf, if_pos hexternal]
          exact nofun
        cases ((hnew hexternal).2.1.symm.trans (hforget.elsewhere _ text hother howed))
  have howed : ∀ text,
      (if s.buffer = written then none else s.owed (fileOf paths source)) = some text →
      s.buffer = text ∧ text ≠ written ∧ (s.draftTimer = true ∨
        s.draftOf paths (fileOf paths (named source written)) = some text) := by
    intro text howed
    split at howed
    · cases howed
    · rename_i htyped
      obtain ⟨rfl, -, hsafe⟩ := h.here source text hsource howed
      refine ⟨rfl, htyped, ?_⟩
      cases hexternal : source.external with
      | true => exact .inl ((hnew hexternal).2.2.resolve_left htyped)
      | false =>
          rw [fileOf_named, ← fileOf_mib hexternal]
          exact hsafe
  have hshown := @Kept.shows _ _ (named source written) hforget s.buffer
    (if s.buffer = written then none else s.owed (fileOf paths source))
    (fun src text hsrc _ ho => by
      obtain rfl : source = src := Option.some.inj (hsource.symm.trans hsrc)
      cases hnone.symm.trans ho) hapart hwritten howed
  unfold markSaved
  rw [hsource]
  dsimp only
  rw [hfresh, Option.none_or]
  split
  · rename_i hsaved
    rw [if_pos hsaved] at hshown
    unfold dropDraft
    split
    · exact hshown
    · rename_i place hplace
      rw [draftPath_draftKey] at hplace
      refine hshown.drop (hshown.free (List.mem_cons_of_mem _ hopen) ?_ hplace) s.timer
      -- neither under its old name nor under the new one is anything owed
      exact ite_eq_left_iff.mpr fun _ => hnone
  · rename_i htyped
    rw [if_neg htyped] at hshown
    exact hshown

theorem kept_saved (h : s.Kept paths) {i : Nat} (hok : s.Careful paths (.saved i))
    (ht : s.step paths (.saved i) = some t) : t.Kept paths := by
  simp only [step] at ht
  split at ht
  · rename_i saving hsaving
    obtain rfl := Option.some.inj ht
    obtain ⟨source, hsource, hname, hnew⟩ := hok saving hsaving
    have hlearns : Kept paths { s with
        saves := fun j => if j = i then none else s.saves j
        contents := (.mib (cleanName paths saving.name), saving.written) :: s.contents } :=
      { h.learns (.mib (cleanName paths saving.name)) saving.written with }
    refine kept_markSaved hlearns hsource ?_ fun hexternal => ?_
    · rw [hname]
      exact List.mem_cons_self
    · exact (hnew hexternal).2
  · cases ht

theorem kept_step (h : s.Kept paths) {a : Act} (hok : s.Careful paths a)
    (ht : s.step paths a = some t) : t.Kept paths := by
  cases a with
  | setBuffer buffer =>
      obtain rfl := Option.some.inj ht
      exact kept_setBuffer h buffer
  | «open» i name =>
      simp only [step] at ht
      split at ht
      · obtain rfl := Option.some.inj ht
        exact h.flushDraft.moves i nofun
      · cases ht
  | flushed i =>
      simp only [step] at ht
      split at ht
      · obtain rfl := Option.some.inj ht
        exact (h.reopens (s.openToken + 1) h.reads).moves i nofun
      · cases ht
  | read i source fails =>
      simp only [step] at ht
      split at ht
      · split at ht
        · cases ht
        · have hlearns := h.learns (fileOf paths source) source.content
          split at ht
          · obtain rfl := Option.some.inj ht
            exact hlearns.closes i
          · obtain rfl := Option.some.inj ht
            refine hlearns.moves i fun _ _ src _ ho => ?_
            obtain ⟨-, -, rfl, -⟩ := Opening.drafting.inj ho
            exact List.mem_cons_self
      · cases ht
  | readFails i =>
      simp only [step] at ht
      split at ht
      · obtain rfl := Option.some.inj ht
        exact h.closes i
      · cases ht
  | opened i => exact kept_opened h hok ht
  | openSource source restored =>
      obtain rfl := Option.some.inj ht
      exact kept_openSource h hok
  | save i =>
      simp only [step] at ht
      split at ht
      · obtain rfl := Option.some.inj ht
        exact { h with }
      · cases ht
  | saved i => exact kept_saved h hok ht
  | saveFails i =>
      simp only [step] at ht
      split at ht
      · obtain rfl := Option.some.inj ht
        exact { h with }
      · cases ht
  | draftTimer =>
      simp only [step] at ht
      split at ht
      · obtain rfl := Option.some.inj ht
        exact h.fire _
      · cases ht
  | revert =>
      obtain rfl := Option.some.inj ht
      exact kept_revert h
  | flushDraft =>
      obtain rfl := Option.some.inj ht
      exact h.flushDraft
  | discardDraft name =>
      obtain rfl := Option.some.inj ht
      exact kept_discardDraft h hok

theorem kept_start (drafts : Octets → Option Octets) : Kept paths { drafts } where
  here _ _ hsource := by cases hsource
  elsewhere _ _ _ howed := by cases howed
  owed _ _ howed := by cases howed
  open_ _ hsource := by cases hsource
  places _ hfile := by cases hfile
  placed _ hfile := by cases hfile
  received _ hr := by cases hr
  content _ hsource := by cases hsource
  reads _ _ _ _ _ hopens := by cases hopens

end Editor

/-- **The editor loses no typed text**: in a run whose steps lose nothing, every state is safe. -/
theorem safe_of_run {paths : Paths} {drafts : Octets → Option Octets} {acts : List Act}
    {t : Editor}
    (hrun : Run (Editor.step paths) (Editor.Careful paths) { drafts } acts t) : t.Safe paths :=
  (hrun.invariant (Editor.kept_start drafts) fun _ _ _ h hok ht => Editor.kept_step h hok ht).safe

/-! ## Text that is typed while a file is on its way -/

/-- A file of the MIB directory. -/
def mibFile (name content : String) : Source where
  name := octets name
  path := octets "/mibs/" ++ octets name
  content := octets content
  external := false

/-- A file is opened, and text is typed in it. -/
def typed (opens : List Act) : List Act :=
  [.open 0 (octets "A"), .flushed 0, .read 0 (mibFile "A" "a") false, .opened 0,
    .setBuffer (octets "new")] ++ opens

/-- Another file is opened, whose flush writes the draft. -/
theorem safe_of_run_typed :
    ∃ t, Run (Editor.step unix) (Editor.Careful unix) { drafts := fun _ => none }
        (typed [.open 0 (octets "B"), .flushed 0, .read 0 (mibFile "B" "b") false, .opened 0]) t ∧
      t.buffer = octets "b" ∧ t.draftOf unix (.mib (octets "A")) = some (octets "new") ∧
      t.Safe unix := by
  have hend : (exec (checked (Editor.step unix) fun s a => decide (s.Careful unix a))
      { drafts := fun _ => none }
      (typed [.open 0 (octets "B"), .flushed 0, .read 0 (mibFile "B" "b") false, .opened 0])).map
      (fun t => (t.buffer, t.draftOf unix (.mib (octets "A")))) =
        some (octets "b", some (octets "new")) := by decide
  obtain ⟨t, ht, hend⟩ := Option.map_eq_some_iff.mp hend
  have hrun := run_of_checked (fun _ _ h => of_decide_eq_true h) ht
  exact ⟨t, hrun, congrArg Prod.fst hend, congrArg Prod.snd hend, safe_of_run hrun⟩

/-- **What is typed while another file is read is in no buffer and no draft.** -/
theorem typed_while_read :
    ¬ ∀ (acts : List Act) (t : Editor),
        Run (Editor.step unix) (fun _ _ => True) { drafts := fun _ => none } acts t →
        t.Safe unix := by
  intro hall
  have hend : (exec (Editor.step unix) { drafts := fun _ => none }
      (typed [.open 0 (octets "B"), .flushed 0, .read 0 (mibFile "B" "b") false,
        .setBuffer (octets "newer"), .opened 0, .draftTimer])).map
      (fun t => (t.buffer, t.owed (.mib (octets "A")), t.draftOf unix (.mib (octets "A")))) =
        some (octets "b", some (octets "newer"), some (octets "new")) := by decide
  obtain ⟨t, ht, hend⟩ := Option.map_eq_some_iff.mp hend
  simp only [Prod.mk.injEq] at hend
  obtain ⟨hbuffer, howed, hdraft⟩ := hend
  rcases (hall _ t (run_of_exec ht)).typed _ _ howed with ⟨-, hnewer⟩ | hnewer
  · rw [hbuffer] at hnewer
    cases hnewer
  · rw [hdraft] at hnewer
    cases hnewer

end SnmpLens.MibEditor
