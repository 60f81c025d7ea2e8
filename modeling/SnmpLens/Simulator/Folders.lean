import Mathlib.Data.List.Induction
import Mathlib.Data.List.Nodup
import SnmpLens.Simulator.Archive

/-!
# Which file of an archive goes with which model

`importModelArchive` of `simmodels.go`. A file belongs to the deepest package folder above it.
Which folders are above a file is what `path.Dir` says; `packageOf` takes the longest of those
the name begins with, and the archive's own folder, ".", is as long as a folder of one letter.
-/

namespace SnmpLens.ModelArchive

open Utf8 Fold SlashPath

variable {σ μ : Type} (M : Models σ μ)

/-! ## The folders with a model -/

theorem rootsOf_concat (files : List Entry) (f : Entry) :
    rootsOf (files ++ [f]) =
      if equalFold (base f.name) packageModelFile && !(rootsOf files).contains (dir f.name) then
        rootsOf files ++ [dir f.name]
      else rootsOf files := by
  unfold rootsOf
  rw [List.foldl_append]
  rfl

/-- A file that makes its folder a package. -/
def marks (f : Entry) : Bool := equalFold (base f.name) packageModelFile

variable {files : List Entry}

theorem mem_rootsOf {r : Octets} :
    r ∈ rootsOf files ↔ ∃ f ∈ files, marks f = true ∧ dir f.name = r := by
  induction files using List.reverseRecOn with
  | nil =>
      constructor
      · intro h
        cases h
      · intro h
        obtain ⟨f, hf, _⟩ := h
        cases hf
  | append_singleton files f ih =>
      rw [rootsOf_concat]
      split
      · rename_i hnew
        rw [Bool.and_eq_true] at hnew
        rw [List.mem_append, ih, List.mem_singleton]
        constructor
        · intro h
          rcases h with ⟨g, hg, hmark, hdir⟩ | rfl
          · exact ⟨g, List.mem_append_left _ hg, hmark, hdir⟩
          · exact ⟨f, by simp, hnew.1, rfl⟩
        · intro h
          obtain ⟨g, hg, hmark, hdir⟩ := h
          rcases List.mem_append.mp hg with hg | hg
          · exact .inl ⟨g, hg, hmark, hdir⟩
          · rw [List.mem_singleton.mp hg] at hdir
            exact .inr hdir.symm
      · rename_i hold
        rw [ih]
        constructor
        · intro h
          obtain ⟨g, hg, hmark, hdir⟩ := h
          exact ⟨g, List.mem_append_left _ hg, hmark, hdir⟩
        · intro h
          obtain ⟨g, hg, hmark, hdir⟩ := h
          rcases List.mem_append.mp hg with hg | hg
          · exact ⟨g, hg, hmark, hdir⟩
          · -- the folder is there already
            rw [List.mem_singleton.mp hg] at hmark hdir
            have hthere : dir f.name ∈ rootsOf files := by
              unfold marks at hmark
              rw [hmark, Bool.true_and, Bool.not_eq_true', Bool.not_eq_false,
                List.contains_iff_mem] at hold
              exact hold
            rw [hdir] at hthere
            exact ih.mp hthere

theorem nodup_rootsOf (files : List Entry) : (rootsOf files).Nodup := by
  induction files using List.reverseRecOn with
  | nil => exact List.nodup_nil
  | append_singleton files f ih =>
      rw [rootsOf_concat]
      split
      · rename_i hnew
        rw [Bool.and_eq_true, Bool.not_eq_true', ← Bool.not_eq_true, List.contains_iff_mem] at hnew
        refine List.nodup_append.mpr ⟨ih, List.nodup_singleton _, ?_⟩
        intro r hr d hd heq
        rw [List.mem_singleton] at hd
        exact hnew.2 (hd ▸ heq ▸ hr)
      · exact ih

/-! ## The longest folder a name begins with -/

/-- The longest of the folders a name shows; of equally long ones the first. -/
def Longest (name : Octets) (roots : List Octets) : Option Octets → Prop
  | none => ∀ r ∈ roots, leads r name = false
  | some b => ∃ front back, roots = front ++ b :: back ∧ leads b name = true ∧
      (∀ r ∈ front, leads r name = true → r.length < b.length) ∧
      ∀ r ∈ back, leads r name = true → r.length ≤ b.length

theorem packageOf_concat (roots : List Octets) (r name : Octets) :
    packageOf (roots ++ [r]) name = choose name (packageOf roots name) r := by
  unfold packageOf
  rw [List.foldl_append]
  rfl

theorem longest_packageOf (name : Octets) (roots : List Octets) :
    Longest name roots (packageOf roots name) := by
  induction roots using List.reverseRecOn with
  | nil => exact fun r hr => absurd hr List.not_mem_nil
  | append_singleton roots r ih =>
      rw [packageOf_concat]
      unfold choose
      cases hbest : packageOf roots name with
      | none =>
          rw [hbest] at ih
          cases hleads : leads r name with
          | false =>
              intro x hx
              rcases List.mem_append.mp hx with hx | hx
              · exact ih x hx
              · rw [List.mem_singleton.mp hx]
                exact hleads
          | true =>
              refine ⟨roots, [], rfl, hleads, fun x hx htrue => ?_, fun x hx => absurd hx List.not_mem_nil⟩
              rw [ih x hx] at htrue
              cases htrue
      | some b =>
          rw [hbest] at ih
          obtain ⟨front, back, rfl, hb, hfront, hback⟩ := ih
          by_cases hnew : leads r name = true ∧ b.length < r.length
          · have hif : (leads r name && (some b).all fun b => b.length < r.length) = true := by
              simp [hnew.1, hnew.2]
            rw [if_pos hif]
            refine ⟨front ++ b :: back, [], by simp, hnew.1, fun x hx htrue => ?_,
              fun x hx => absurd hx List.not_mem_nil⟩
            rcases List.mem_append.mp hx with hx | hx
            · exact Nat.lt_trans (hfront x hx htrue) hnew.2
            · rcases List.mem_cons.mp hx with rfl | hx
              · exact hnew.2
              · exact Nat.lt_of_le_of_lt (hback x hx htrue) hnew.2
          · have hif : ¬ (leads r name && (some b).all fun b => b.length < r.length) = true := by
              simpa using hnew
            rw [if_neg hif]
            refine ⟨front, back ++ [r], by simp, hb, hfront, fun x hx htrue => ?_⟩
            rcases List.mem_append.mp hx with hx | hx
            · exact hback x hx htrue
            · rw [List.mem_singleton.mp hx] at htrue ⊢
              exact Nat.le_of_not_lt fun hlt => hnew ⟨htrue, hlt⟩

theorem front_of_longest {name b c : Octets} {front back front' back' t : List Octets}
    (hb : leads b name = true) (hback : ∀ r ∈ back, leads r name = true → r.length ≤ b.length)
    (hc : leads c name = true) (hfront' : ∀ r ∈ front', leads r name = true → r.length < c.length)
    (hsplit : front' = front ++ t) (hrest : b :: back = t ++ c :: back') : b = c := by
  cases t with
  | nil => exact (List.cons.inj hrest).1
  | cons x t =>
      obtain ⟨rfl, hbehind⟩ := List.cons.inj hrest
      have hlt := hfront' b (by rw [hsplit]; simp) hb
      have hle := hback c (by rw [hbehind]; simp) hc
      omega

variable {roots : List Octets}

theorem longest_unique {name : Octets} {b c : Option Octets} (hb : Longest name roots b)
    (hc : Longest name roots c) : b = c := by
  cases b with
  | none =>
      cases c with
      | none => rfl
      | some c =>
          obtain ⟨front, back, rfl, hleads, _⟩ := hc
          rw [hb c (by simp)] at hleads
          cases hleads
  | some b =>
      cases c with
      | none =>
          obtain ⟨front, back, rfl, hleads, _⟩ := hb
          rw [hc b (by simp)] at hleads
          cases hleads
      | some c =>
          obtain ⟨front, back, hroots, hb, hfront, hback⟩ := hb
          obtain ⟨front', back', hroots', hc, hfront', hback'⟩ := hc
          rw [hroots] at hroots'
          rcases List.append_eq_append_iff.mp hroots' with ⟨t, hsplit, hrest⟩ | ⟨t, hsplit, hrest⟩
          · rw [front_of_longest hb hback hc hfront' hsplit hrest]
          · rw [front_of_longest hc hback' hb hfront hsplit hrest]

theorem packageOf_eq_iff {name : Octets} {best : Option Octets} :
    packageOf roots name = best ↔ Longest name roots best := by
  constructor
  · intro h
    rw [← h]
    exact longest_packageOf name roots
  · intro h
    exact longest_unique (longest_packageOf name roots) h

/-! ## The innermost folder above a file -/

/-- The deepest folder with a model above a file. -/
def innermost (roots : List Octets) (name : Octets) : Option Octets :=
  (above name).find? fun d => roots.contains d

/-- Of the folders a name shows, the longest is the innermost: the condition under which
`packageOf` finds the package. -/
def Shown (files : List Entry) : Prop :=
  ∀ f ∈ files, Longest f.name (rootsOf files) (innermost (rootsOf files) f.name)

theorem shown_iff :
    Shown files ↔ ∀ f ∈ files,
      packageOf (rootsOf files) f.name = innermost (rootsOf files) f.name :=
  forall₂_congr fun _ _ => packageOf_eq_iff.symm

theorem mem_of_packageOf {name r : Octets} (h : packageOf roots name = some r) : r ∈ roots := by
  obtain ⟨front, back, rfl, _⟩ := packageOf_eq_iff.mp h
  simp

theorem innermost_of_marks {f : Entry} (hf : f ∈ files) (hmarks : marks f = true) :
    innermost (rootsOf files) f.name = some (dir f.name) := by
  obtain ⟨rest, habove⟩ := dir_mem_above f.name
  have hroot : dir f.name ∈ rootsOf files := mem_rootsOf.mpr ⟨f, hf, hmarks, rfl⟩
  unfold innermost
  rw [habove, List.find?_cons_of_pos]
  exact List.contains_iff_mem.mpr hroot

theorem mem_of_innermost {name r : Octets} (h : innermost roots name = some r) : r ∈ roots := by
  have hfound := List.find?_some h
  exact List.contains_iff_mem.mp hfound

/-! ## What is imported -/

/-- A package's folder and its files. -/
def Source.folder? : Source → Option (Octets × List Entry)
  | .package root members => some (root, members)
  | .alone _ => none

/-- A model on its own. -/
def Source.lone? : Source → Option Entry
  | .package _ _ => none
  | .alone f => some f

theorem folders_package (root : Octets) (members : List Entry) (rest : List Source) :
    (Source.package root members :: rest).filterMap Source.folder?
      = (root, members) :: rest.filterMap Source.folder? := rfl

theorem folders_alone (f : Entry) (rest : List Source) :
    (Source.alone f :: rest).filterMap Source.folder? = rest.filterMap Source.folder? := rfl

theorem lone_package (root : Octets) (members : List Entry) (rest : List Source) :
    (Source.package root members :: rest).filterMap Source.lone? = rest.filterMap Source.lone? := rfl

theorem lone_alone (f : Entry) (rest : List Source) :
    (Source.alone f :: rest).filterMap Source.lone? = f :: rest.filterMap Source.lone? := rfl

/-- What was imported, in its order. -/
def Run.sources (run : Run σ) : List Source := run.results.map ModelImport.source

/-- Each folder with a model.json is imported once, with the files it is the innermost of, and
each other .json file once, on its own. -/
structure Partitioned (files : List Entry) (sources : List Source) : Prop where
  folders : (sources.filterMap Source.folder?).Perm ((rootsOf files).map fun r =>
    (r, files.filter fun f => innermost (rootsOf files) f.name == some r))
  lone : sources.filterMap Source.lone?
    = files.filter fun f => innermost (rootsOf files) f.name == none && isJson f.name

/-- The files of a package, as `importModelArchive` collects them. -/
def membersOf (files : List Entry) (root : Octets) : List Entry :=
  files.filter fun g => packageOf (rootsOf files) g.name == some root

/-- What is imported if the budget lasts. -/
def plan (files : List Entry) (imported : List Octets) : List Entry → List Source
  | [] => []
  | f :: rest =>
      match packageOf (rootsOf files) f.name with
      | some root =>
          if root ∈ imported then plan files imported rest
          else .package root (membersOf files root) :: plan files (root :: imported) rest
      | none =>
          if isJson f.name then .alone f :: plan files imported rest else plan files imported rest

/-- **An import with budget left has imported all there was to import.** -/
theorem importFiles_sources (files : List Entry) (run : Run σ) (entries : List Entry)
    (hleft : (importFiles M files run entries).archive.exhausted = false) :
    (importFiles M files run entries).sources = run.sources ++ plan files run.imported entries := by
  induction entries generalizing run with
  | nil => simp [importFiles, plan]
  | cons f rest ih =>
      unfold importFiles at hleft ⊢
      unfold plan
      by_cases hexhausted : run.archive.exhausted = true
      · rw [if_pos hexhausted, hexhausted] at hleft
        cases hleft
      · rw [if_neg hexhausted] at hleft ⊢
        have hroom : run.archive.unpacked ≤ maxArchiveUnpacked := by
          unfold Archive.exhausted at hexhausted
          simpa using hexhausted
        cases hpackage : packageOf (rootsOf files) f.name with
        | some root =>
            rw [hpackage] at hleft
            dsimp only at hleft ⊢
            by_cases hold : root ∈ run.imported
            · rw [if_pos hold] at hleft ⊢
              rw [if_pos hold]
              exact ih run hleft
            · rw [if_neg hold] at hleft ⊢
              rw [if_neg hold, ih _ hleft]
              have hsource := (importPackage_reads M run.dir hroom root (membersOf files root)).2
              unfold membersOf at hsource ⊢
              unfold Run.sources Run.with
              dsimp only
              rw [List.map_append, List.map_singleton, hsource, List.append_assoc,
                List.singleton_append]
        | none =>
            rw [hpackage] at hleft
            dsimp only at hleft ⊢
            by_cases hjson : isJson f.name = true
            · rw [if_pos hjson] at hleft ⊢
              rw [if_pos hjson, ih _ hleft]
              have hsource := (importArchivedModel_reads M run.dir hroom f).2
              unfold Run.sources Run.with
              dsimp only
              rw [List.map_append, List.map_singleton, hsource, List.append_assoc,
                List.singleton_append]
            · rw [if_neg hjson] at hleft ⊢
              rw [if_neg hjson]
              exact ih run hleft

/-- A .json file in no package, as `importModelArchive` takes one. -/
def isLone (files : List Entry) (f : Entry) : Bool :=
  packageOf (rootsOf files) f.name == none && isJson f.name

theorem plan_lone (files : List Entry) (imported : List Octets) (entries : List Entry) :
    (plan files imported entries).filterMap Source.lone? = entries.filter (isLone files) := by
  induction entries generalizing imported with
  | nil => rfl
  | cons f rest ih =>
      unfold plan
      cases hpackage : packageOf (rootsOf files) f.name with
      | some root =>
          have hout : ¬ isLone files f = true := by simp [isLone, hpackage]
          rw [List.filter_cons_of_neg hout]
          dsimp only
          split
          · exact ih imported
          · rw [lone_package]
            exact ih _
      | none =>
          dsimp only
          split
          · rename_i hjson
            have hin : isLone files f = true := by simp [isLone, hpackage, hjson]
            rw [List.filter_cons_of_pos hin, lone_alone, ih]
          · rename_i hjson
            have hout : ¬ isLone files f = true := by simp [isLone, hjson]
            rw [List.filter_cons_of_neg hout, ih]

/-- A package is planned when a file of it is met, unless it is imported already. -/
theorem mem_plan_folders {imported : List Octets} {entries : List Entry} {p : Octets × List Entry} :
    p ∈ (plan files imported entries).filterMap Source.folder? ↔
      p.1 ∉ imported ∧ p.2 = membersOf files p.1 ∧
        ∃ f ∈ entries, packageOf (rootsOf files) f.name = some p.1 := by
  induction entries generalizing imported with
  | nil =>
      constructor
      · intro h
        cases h
      · intro h
        obtain ⟨_, _, f, hf, _⟩ := h
        cases hf
  | cons f rest ih =>
      unfold plan
      cases hpackage : packageOf (rootsOf files) f.name with
      | none =>
          have hsame : (∃ g ∈ f :: rest, packageOf (rootsOf files) g.name = some p.1)
              ↔ ∃ g ∈ rest, packageOf (rootsOf files) g.name = some p.1 := by
            simp [hpackage]
          rw [hsame]
          dsimp only
          split
          · rw [folders_alone]
            exact ih
          · exact ih
      | some root =>
          have hmore : (∃ g ∈ f :: rest, packageOf (rootsOf files) g.name = some p.1)
              ↔ root = p.1 ∨ ∃ g ∈ rest, packageOf (rootsOf files) g.name = some p.1 := by
            simp [hpackage]
          rw [hmore]
          dsimp only
          split
          · rename_i hold
            rw [ih]
            constructor
            · intro h
              exact ⟨h.1, h.2.1, .inr h.2.2⟩
            · intro h
              refine ⟨h.1, h.2.1, h.2.2.resolve_left fun heq => h.1 (heq ▸ hold)⟩
          · rename_i hnew
            rw [folders_package, List.mem_cons, ih, List.mem_cons, not_or]
            constructor
            · intro h
              rcases h with rfl | h
              · exact ⟨hnew, rfl, .inl rfl⟩
              · exact ⟨h.1.2, h.2.1, .inr h.2.2⟩
            · intro h
              by_cases heq : p.1 = root
              · left
                obtain ⟨r, members⟩ := p
                dsimp only at heq h
                rw [h.2.1, heq]
              · exact .inr ⟨⟨heq, h.1⟩, h.2.1, h.2.2.resolve_left fun h => heq h.symm⟩

theorem nodup_plan_folders (files : List Entry) (imported : List Octets) (entries : List Entry) :
    ((plan files imported entries).filterMap Source.folder?).Nodup := by
  induction entries generalizing imported with
  | nil => exact List.nodup_nil
  | cons f rest ih =>
      unfold plan
      split
      · rename_i root _
        split
        · exact ih imported
        · rw [folders_package]
          refine List.nodup_cons.mpr ⟨fun hmem => ?_, ih _⟩
          exact (mem_plan_folders.mp hmem).1 List.mem_cons_self
      · split
        · rw [folders_alone]
          exact ih imported
        · exact ih imported

/-- **The plan parts the files as it should exactly where `packageOf` finds the innermost
folder.** -/
theorem plan_partitioned (files : List Entry) :
    Partitioned files (plan files [] files) ↔ Shown files := by
  rw [shown_iff]
  constructor
  · intro h f hf
    have hfolders := h.folders
    cases hpackage : packageOf (rootsOf files) f.name with
    | some r =>
        -- the package of the file is one of the folders, with the files it is the innermost of
        have hmem : (r, membersOf files r) ∈ (plan files [] files).filterMap Source.folder? :=
          mem_plan_folders.mpr ⟨List.not_mem_nil, rfl, f, hf, hpackage⟩
        obtain ⟨d, _, heq⟩ := List.mem_map.mp (hfolders.mem_iff.mp hmem)
        obtain ⟨rfl, hmembers⟩ := Prod.mk.inj heq
        have hin : f ∈ membersOf files d := by
          unfold membersOf
          exact List.mem_filter.mpr ⟨hf, by simp [hpackage]⟩
        rw [← hmembers] at hin
        have hinner := (List.mem_filter.mp hin).2
        exact (beq_iff_eq.mp hinner).symm
    | none =>
        cases hinner : innermost (rootsOf files) f.name with
        | none => rfl
        | some r =>
            have hroot := mem_of_innermost hinner
            have hmem := hfolders.mem_iff.mpr (List.mem_map.mpr ⟨r, hroot, rfl⟩)
            obtain ⟨_, hmembers, _⟩ := mem_plan_folders.mp hmem
            have hin : f ∈ membersOf files r := by
              dsimp only at hmembers
              rw [← hmembers]
              exact List.mem_filter.mpr ⟨hf, by simp [hinner]⟩
            unfold membersOf at hin
            have hfound := (List.mem_filter.mp hin).2
            rw [hpackage] at hfound
            cases hfound
  · intro h
    have hmembers : ∀ r, membersOf files r
        = files.filter fun f => innermost (rootsOf files) f.name == some r := by
      intro r
      unfold membersOf
      refine List.filter_congr fun f hf => ?_
      rw [h f hf]
    refine ⟨?_, ?_⟩
    · refine (List.perm_ext_iff_of_nodup (nodup_plan_folders files [] files) ?_).mpr ?_
      · refine (List.nodup_map_iff_inj_on (nodup_rootsOf files)).mpr fun r _ d _ heq => ?_
        exact (Prod.mk.inj heq).1
      · intro p
        rw [mem_plan_folders]
        constructor
        · intro hp
          obtain ⟨_, hp, f, hf, hpackage⟩ := hp
          refine List.mem_map.mpr ⟨p.1, mem_of_packageOf hpackage, ?_⟩
          rw [← hmembers, ← hp]
        · intro hp
          obtain ⟨r, hr, rfl⟩ := List.mem_map.mp hp
          obtain ⟨f, hf, hmarks, rfl⟩ := mem_rootsOf.mp hr
          refine ⟨List.not_mem_nil, (hmembers _).symm, f, hf, ?_⟩
          rw [h f hf]
          exact innermost_of_marks hf hmarks
    · rw [plan_lone]
      refine List.filter_congr fun f hf => ?_
      unfold isLone
      rw [h f hf]

/-! ## Archives with valid names -/

theorem leads_iff {fs es : List Octets} {b : Octets} (hfs : ∀ e ∈ fs, Name e)
    (hes : ∀ e ∈ es, Name e) (hb : Name b) :
    leads (folder fs) (join (es ++ [b])) = true ↔ fs <+: es := by
  unfold leads
  rw [Bool.or_eq_true, beq_iff_eq, folder_eq_here hfs, List.isPrefixOf_iff_prefix]
  by_cases hnil : fs = []
  · rw [hnil]
    exact ⟨fun _ => List.nil_prefix, fun _ => .inl rfl⟩
  · have hfolder : folder fs = join fs := by
      unfold folder
      rw [if_neg fun hempty => hnil (List.isEmpty_iff.mp hempty)]
    rw [hfolder, prefix_join_iff hfs hes hb hnil]
    exact ⟨fun h => h.resolve_left hnil, .inr⟩

theorem root_eq_folder (hvalid : ∀ f ∈ files, Valid f.name) {r : Octets} (hr : r ∈ rootsOf files) :
    ∃ fs, (∀ e ∈ fs, Name e) ∧ r = folder fs := by
  obtain ⟨f, hf, _, rfl⟩ := mem_rootsOf.mp hr
  obtain ⟨es, b, hname, hes, hb⟩ := (hvalid f hf).split
  exact ⟨es, hes, by rw [hname, dir_join hes hb]⟩

/-- **A folder of one letter is passed over for the archive's own folder, and nothing else is.** -/
theorem shown_of_valid (hvalid : ∀ f ∈ files, Valid f.name) :
    Shown files ↔ ∀ d, d.length = 1 → d ≠ here → ¬ [here, d].Sublist (rootsOf files) := by
  have hnodup := nodup_rootsOf files
  constructor
  · intro h d hone hne hsub
    have hroot : d ∈ rootsOf files := hsub.subset (by simp)
    obtain ⟨f, hf, hmarks, hdir⟩ := mem_rootsOf.mp hroot
    have hshown := h f hf
    rw [innermost_of_marks hf hmarks, hdir] at hshown
    obtain ⟨front, back, hroots, _, hfront, _⟩ := hshown
    rw [hroots] at hsub hnodup
    -- the archive's own folder stands in front
    have hhere : here ∈ front := by
      obtain ⟨l, l', hsplit, hl, hl'⟩ := List.sublist_append_iff.mp hsub
      cases l with
      | cons x l =>
          have hx : here = x := (List.cons.inj hsplit).1
          rw [hx]
          exact hl.subset List.mem_cons_self
      | nil =>
          rw [List.nil_append] at hsplit
          rw [← hsplit] at hl'
          have hback : d ∈ back := by
            cases hl' with
            | cons _ hback => exact hback.subset (by simp)
            | cons_cons _ _ => exact absurd rfl hne
          exact absurd hback (List.nodup_cons.mp (List.nodup_append.mp hnodup).2.1).1
    have hshort := hfront here hhere (by simp [leads])
    rw [hone] at hshort
    exact absurd hshort (by decide)
  · intro h f hf
    obtain ⟨es, b, hname, hes, hb⟩ := (hvalid f hf).split
    rw [hname]
    -- what the name shows is above the file
    have habove : ∀ x ∈ rootsOf files, leads x (join (es ++ [b])) = true →
        x ∈ above (join (es ++ [b])) := by
      intro x hx hleads
      obtain ⟨gs, hgs, rfl⟩ := root_eq_folder hvalid hx
      exact (mem_above hes hb).mpr ⟨gs, (leads_iff hgs hes hb).mp hleads, rfl⟩
    cases hinner : innermost (rootsOf files) (join (es ++ [b])) with
    | none =>
        intro x hx
        rw [← Bool.not_eq_true]
        intro hleads
        have hnone := List.find?_eq_none.mp hinner x (habove x hx hleads)
        exact hnone (List.contains_iff_mem.mpr hx)
    | some r =>
        obtain ⟨hr, inner, outer, hsplit, hinside⟩ := List.find?_eq_some_iff_append.mp hinner
        rw [List.contains_iff_mem] at hr
        obtain ⟨fs, hfs, hfolder, houtside⟩ := above_split hes hb hsplit
        have hnames : ∀ e ∈ fs, Name e := fun e he => hes e (hfs.subset he)
        obtain ⟨front, back, hroots⟩ := List.append_of_mem hr
        have hshorter : ∀ x ∈ rootsOf files, x ≠ r → leads x (join (es ++ [b])) = true →
            x.length < r.length ∨ x = here ∧ r.length = 1 := by
          intro x hx hne hleads
          have hmem := habove x hx hleads
          rw [hsplit] at hmem
          rcases List.mem_append.mp hmem with hmem | hmem
          · have hnot := hinside x hmem
            rw [List.contains_iff_mem.mpr hx] at hnot
            cases hnot
          · obtain ⟨gs, hgs, hproper, rfl⟩ :=
              houtside x ((List.mem_cons.mp hmem).resolve_left hne)
            rw [hfolder]
            rcases length_folder hnames hgs hproper with hlt | ⟨hnil, hone⟩
            · exact .inl hlt
            · exact .inr ⟨by rw [hnil]; rfl, hone⟩
        rw [hroots] at hnodup
        have hapart := List.nodup_append.mp hnodup
        refine ⟨front, back, hroots, ?_, ?_, ?_⟩
        · rw [hfolder]
          exact (leads_iff hnames hes hb).mpr hfs
        · intro x hx hleads
          have hne : x ≠ r := fun heq => hapart.2.2 x hx r List.mem_cons_self heq
          rcases hshorter x (by rw [hroots]; simp [hx]) hne hleads with hlt | ⟨hhere, hone⟩
          · exact hlt
          · -- the folder of one letter would stand behind the archive's own
            refine absurd ?_ (h r hone fun heq => hne (hhere.trans heq.symm))
            rw [hroots, ← hhere]
            exact (List.singleton_sublist.mpr hx).append
              (List.singleton_sublist.mpr List.mem_cons_self)
        · intro x hx hleads
          have hne : x ≠ r :=
            fun heq => (List.nodup_cons.mp hapart.2.1).1 (heq ▸ hx)
          rcases hshorter x (by rw [hroots]; simp [hx]) hne hleads with hlt | ⟨hhere, hone⟩
          · exact Nat.le_of_lt hlt
          · rw [hhere, hone]
            exact Nat.le_refl 1

/-! ## Files that fail -/

/-- A model file in no package that gives what it declares and then fails: its checksum is
wrong. -/
structure Broken (files : List Entry) (f : Entry) : Prop where
  lone : isLone files f = true
  opens : f.opens = true
  unsound : f.sound = false
  declared : f.declared ≤ maxCustomModelBytes

/-- **What fails is unpacked and never counted**, however many such files there are. -/
theorem broken_total (files : List Entry) (run : Run σ) (entries : List Entry)
    (hbroken : ∀ f ∈ entries, Broken files f) (hroom : run.archive.unpacked ≤ maxArchiveUnpacked) :
    (importFiles M files run entries).archive.total
        = entries.foldr (fun f n => f.content.length + n) run.archive.total ∧
      ∀ r ∈ (importFiles M files run entries).archive.log,
        r ∈ run.archive.log ∨ r.limit = maxCustomModelBytes := by
  induction entries generalizing run with
  | nil => exact ⟨rfl, fun r hr => .inl hr⟩
  | cons f rest ih =>
      have hf := hbroken f List.mem_cons_self
      have hlone := hf.lone
      unfold isLone at hlone
      rw [Bool.and_eq_true, beq_iff_eq] at hlone
      have hexhausted : ¬ run.archive.exhausted = true := by
        unfold Archive.exhausted
        simpa using hroom
      have hfits : f.content.length ≤ maxCustomModelBytes := Nat.le_trans f.stops hf.declared
      have hread : run.archive.read f maxCustomModelBytes
          = ({ run.archive with log := ⟨f, maxCustomModelBytes⟩ :: run.archive.log },
            .error (.broken (base f.name))) := by
        unfold Archive.read
        dsimp only
        rw [if_neg (Nat.not_lt.mpr hf.declared), if_neg (by simp [hf.opens]),
          if_pos ⟨hf.unsound, hfits⟩]
      have hcame : (Reading.mk f maxCustomModelBytes).came = f.content := by
        unfold Reading.came
        rw [if_neg (by simp [hf.opens, Nat.not_lt.mpr hf.declared])]
        exact List.take_of_length_le (Nat.le_succ_of_le hfits)
      have harchive : (importArchivedModel M run.dir run.archive f).2.1
          = { run.archive with log := ⟨f, maxCustomModelBytes⟩ :: run.archive.log } := by
        unfold importArchivedModel
        rw [hread]
      have hnext := ih (run.with (importArchivedModel M run.dir run.archive f))
        (fun g hg => hbroken g (List.mem_cons_of_mem f hg))
        (by unfold Run.with; rw [harchive]; exact hroom)
      unfold importFiles
      rw [if_neg hexhausted, hlone.1]
      dsimp only
      rw [if_pos hlone.2]
      refine ⟨?_, fun r hr => ?_⟩
      · rw [hnext.1, List.foldr_cons]
        unfold Run.with
        rw [harchive]
        have htotal : Archive.total
            { run.archive with log := ⟨f, maxCustomModelBytes⟩ :: run.archive.log }
            = f.content.length + run.archive.total := by
          unfold Archive.total
          rw [List.foldr_cons, hcame]
        dsimp only
        rw [htotal]
        generalize run.archive.total = total
        clear hnext hbroken ih
        induction rest with
        | nil => rfl
        | cons g rest ih =>
            rw [List.foldr_cons, List.foldr_cons, ih]
            omega
      · rcases hnext.2 r hr with hold | hlimit
        · unfold Run.with at hold
          rw [harchive] at hold
          rcases List.mem_cons.mp hold with rfl | hold
          · exact .inr rfl
          · exact .inl hold
        · exact .inr hlimit

theorem importOpened_broken (s : σ) (hbroken : ∀ f ∈ files, Broken files f) :
    (importOpened M s { files }).archive.total
        = files.foldr (fun f n => f.content.length + n) 0 ∧
      ∀ r ∈ (importOpened M s { files }).archive.log, r.limit = maxCustomModelBytes := by
  obtain ⟨htotal, hlog⟩ := broken_total M files { dir := s, archive := { files } } files hbroken
    (Nat.zero_le _)
  exact ⟨htotal, fun r hr => (hlog r hr).resolve_left List.not_mem_nil⟩

/-! ## The archive as a whole -/

/-- **An archive is imported within its budget, and parted into its models**: what is counted
stays within the budget and one entry's limit, and so does what is unpacked unless an entry
fails after it gave something; and while there is budget left, each model is imported once with
its files exactly where the longest folder a name shows is the innermost, which for valid names
is so unless the archive's own folder comes before one of a single letter. -/
theorem importOpened_spec {zip : List Entry} {ar : Archive} (h : openArchive zip = .ok ar) (s : σ) :
    let run := importOpened M s ar
    (run.archive.Within run.archive.unpacked ∧
      run.archive.total = run.archive.unpacked + run.archive.lost ∧
      ((∀ r ∈ run.archive.log, r.Ends) → run.archive.Within run.archive.total)) ∧
    (run.archive.exhausted = false → (Partitioned ar.files run.sources ↔ Shown ar.files)) ∧
    ((∀ f ∈ ar.files, Valid f.name) → (Shown ar.files ↔
      ∀ d, d.length = 1 → d ≠ here → ¬ [here, d].Sublist (rootsOf ar.files))) := by
  dsimp only
  have hreads : Reads ar (importOpened M s ar).archive :=
    importFiles_reads M ar.files { dir := s, archive := ar } ar.files
  have hfresh := fresh_of_openArchive h
  refine ⟨⟨hreads.counted hfresh, hreads.account hfresh, total_within M h s⟩, fun hleft => ?_,
    shown_of_valid⟩
  have hsources : (importOpened M s ar).sources = plan ar.files [] ar.files :=
    importFiles_sources M ar.files { dir := s, archive := ar } ar.files hleft
  rw [hsources]
  exact plan_partitioned ar.files

/-! ## Some archives -/

/-- A directory that takes no model. -/
def refusing : Models Unit Unit where
  toLower := List.map lower
  parseCustomModel := fun _ => .error (octets "not a model")
  parseCustomPackage := fun _ => .error (octets "not a model")
  icon := fun _ => []
  repack := fun _ => .ok []
  checkIcon := fun _ => .ok ()
  ready := fun _ _ => .ok ()
  keep := fun _ _ _ _ => ((), none)

/-- An empty model file. -/
def whole (name : Octets) : Entry where
  name := name
  dirMode := false
  declared := 2
  opens := true
  content := octets "{}"
  sound := true
  stops := by decide

theorem importOpened_spec_folders :
    let ar : Archive := { files := [whole (octets "ups/model.json"), whole (octets "ups/oids.json"),
      whole (octets "ups.json")] }
    (importOpened refusing () ar).archive.Within (importOpened refusing () ar).archive.total ∧
      Partitioned ar.files (importOpened refusing () ar).sources := by
  intro ar
  have h := importOpened_spec refusing
    (show openArchive ar.files = .ok ar from by rfl) ()
  have hends : ∀ r ∈ (importOpened refusing () ar).archive.log, r.entry.sound = true := by decide
  refine ⟨h.1.2.2 fun r hr => .inl (hends r hr), (h.2.1 (by decide)).mpr ((h.2.2 (by decide)).mpr ?_)⟩
  intro d _ _ hsub
  have hroots : rootsOf ar.files = [octets "ups"] := by decide
  have hlength := hsub.length_le
  rw [hroots] at hlength
  exact absurd hlength (by simp)

/-- A model file of a megabyte, its checksum wrong. -/
def spoilt : Entry where
  name := octets "a.json"
  dirMode := false
  declared := 2 ^ 20
  opens := true
  content := List.replicate (2 ^ 20) 0
  sound := false
  stops := Nat.le_of_eq List.length_replicate

/-- **An archive can be unpacked past its budget, and a package passed over**: sixty-four model
files of a megabyte with wrong checksums, and a package in a folder of one letter beside a
model.json that belongs to no folder. -/
theorem archive_overruns :
    (∃ ar, openArchive (List.replicate 64 spoilt) = .ok ar ∧
      ¬ (importOpened refusing () ar).archive.Within (importOpened refusing () ar).archive.total) ∧
    (∃ ar, openArchive [whole (octets "model.json"), whole (octets "a/model.json")] = .ok ar ∧
      (importOpened refusing () ar).archive.exhausted = false ∧
      ¬ Partitioned ar.files (importOpened refusing () ar).sources) := by
  constructor
  · have hmarks : marks spoilt = false := by decide
    have hroots : rootsOf (List.replicate 64 spoilt) = [] := by
      refine List.eq_nil_iff_forall_not_mem.mpr fun r hr => ?_
      obtain ⟨f, hf, hmark, _⟩ := mem_rootsOf.mp hr
      rw [List.eq_of_mem_replicate hf, hmarks] at hmark
      cases hmark
    have hbroken : ∀ f ∈ List.replicate 64 spoilt, Broken (List.replicate 64 spoilt) f := by
      intro f hf
      rw [List.eq_of_mem_replicate hf]
      refine ⟨?_, rfl, rfl, Nat.le_refl _⟩
      unfold isLone
      rw [hroots]
      decide
    have hopen : openArchive (List.replicate 64 spoilt) = .ok { files := List.replicate 64 spoilt } := by
      unfold openArchive
      have hlisted : spoilt.listed = true := by decide
      dsimp only
      rw [List.filter_replicate_of_pos hlisted, List.length_replicate, if_neg (by decide)]
    refine ⟨_, hopen, fun hwithin => ?_⟩
    obtain ⟨htotal, hlog⟩ := importOpened_broken refusing () hbroken
    have hsum : ∀ n m, (List.replicate n spoilt).foldr (fun f k => f.content.length + k) m
        = n * 2 ^ 20 + m := by
      intro n m
      induction n with
      | zero => simp
      | succ n ih =>
          rw [List.replicate_succ, List.foldr_cons, ih]
          have hlength : spoilt.content.length = 2 ^ 20 := List.length_replicate
          rw [hlength]
          omega
    unfold Archive.Within at hwithin
    rw [htotal, hsum] at hwithin
    unfold maxArchiveUnpacked at hwithin
    rcases hwithin with hwithin | ⟨r, hr, hwithin⟩
    · omega
    · rw [hlog r hr] at hwithin
      unfold maxCustomModelBytes at hwithin
      omega
  · refine ⟨{ files := [whole (octets "model.json"), whole (octets "a/model.json")] }, by rfl,
      by decide, fun h => ?_⟩
    have hlength := h.folders.length_eq
    cases hlength

end SnmpLens.ModelArchive
