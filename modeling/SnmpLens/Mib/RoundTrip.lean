import SnmpLens.Mib.Source

/-!
# Opening a MIB and saving it

`NormaliseSource` and `RestoreEol` of `pkg/mib/editor.go`, with `MibEditorRead` and
`MibEditorSave` of `internal/app/mibeditor.go` over the MIB directory. The editor holds a text
whose lines end in LF; what they ended in on the disk is left in one flag, and a save makes the
file again from the two.

That is enough for a file without CR, and for one whose LFs all stand behind a CR; it is not for
one that mixes the two, for one whose only line endings are CRs, and for one with a byte order
mark, which nothing puts back. Putting the endings back goes octet by octet, so whatever it does
to a stretch of the text does not depend on what stands around it: that is why the rest of a file
survives an edit exactly when the whole of it survives none.
-/

namespace SnmpLens.Mib

open Utf8 Strings

/-! ## Line endings -/

inductive Eol where
  | lf
  | crlf
deriving DecidableEq, Repr

def bomPrefix : Octets := [0xef, 0xbb, 0xbf]

def withoutBom (raw : Octets) : Octets :=
  if bomPrefix.isPrefixOf raw then raw.drop bomPrefix.length else raw

/-- The second result of `NormaliseSource`; `normaliseSource` is the first. -/
def eolOf (raw : Octets) : Eol :=
  if (index (octets "\r\n") (withoutBom raw)).isSome then .crlf else .lf

def restoreEol (content : Octets) : Eol → Octets
  | .crlf => Substring.replaceAll (octets "\n") (octets "\r\n") content
  | .lf => content

/-! ## The editor's calls -/

/-- What the calls use that is outside of them; a `Diagnostic` is what `Validate` returns. -/
structure Host (Diagnostic : Type) where
  checksum : Octets → Octets
  validate : Octets → List Diagnostic
  /-- Whether the application comes with a file of that name. -/
  bundled : Octets → Bool
  /-- `%q`. -/
  quote : Octets → Octets
  /-- What `os.ReadFile` says of a path that is not there. -/
  missing : Octets → Octets

variable {Diagnostic : Type}

/-- `mib.Source`. -/
structure Source (Diagnostic : Type) where
  name : Octets
  path : Octets
  content : Octets
  eol : Eol
  bundled : Bool
  sha256 : Octets
  diagnostics : List Diagnostic

structure SaveResult (Diagnostic : Type) where
  saved : Bool := false
  backupPath : Octets := []
  sha256 : Octets := []
  diagnostics : List Diagnostic := []
  conflict : Bool := false

/-- What the system answers while a file is saved: where the copy was put, or an error. -/
structure Answers where
  backup : Except Octets Octets
  mkdirAll : Option Octets
  writeFile : Option Octets
  rename : Option Octets

/-- The error the steps behind the copy end with. -/
def Answers.failure (a : Answers) : Option Octets := a.mkdirAll <|> a.writeFile <|> a.rename

/-- Whether nothing fails. -/
def Answers.work (a : Answers) : Bool := a.backup.isOk && a.failure.isNone

/-- The MIB directory, and the copies beside it. -/
structure Disk where
  directory : Directory
  backups : List (Octets × Octets)

namespace Directory

def readFile (d : Directory) (path : Octets) : Option Octets :=
  (d.files.find? fun f => f.1 == path).map Prod.snd

def writeFile (d : Directory) (path content : Octets) : Directory :=
  if (d.readFile path).isSome then
    { d with files := d.files.map fun f => if f.1 == path then (path, content) else f }
  else { d with files := d.files ++ [(path, content)] }

end Directory

/-- The directory of `filepath.Join(dir, clean)` is another one for `..` only. -/
def resolveMibPath (host : Host Diagnostic) (d : Directory) (name : Octets) :
    Except Octets Octets :=
  match d.safeMibPath name with
  | none => .error (octets "invalid MIB file name " ++ host.quote name)
  | some clean =>
      if clean = octets ".." then
        .error (octets "refusing a MIB path outside the MIB directory: " ++ host.quote name)
      else .ok clean

def mibEditorRead (host : Host Diagnostic) (disk : Disk) (name : Octets) :
    Except Octets (Source Diagnostic) :=
  match resolveMibPath host disk.directory name with
  | .error err => .error err
  | .ok path =>
      match disk.directory.readFile path with
      | none => .error (host.missing path)
      | some raw =>
          let base := Filepath.base disk.directory.lib.paths name
          if valid raw then
            let content := normaliseSource raw
            .ok { name := base, path, content, eol := eolOf raw, bundled := host.bundled name,
                  sha256 := host.checksum content, diagnostics := host.validate content }
          else
            .error (base ++ octets " is not valid UTF-8 and cannot be edited without corrupting it" ++
              octets " — convert it to UTF-8 first (MIBs are ASCII by grammar)")

/-- From the temporary file on: it is renamed to the path when it is whole, and every error before
that leaves the path as it was. -/
def replaceFile (host : Host Diagnostic) (answers : Answers) (disk : Disk) (path content : Octets)
    (eol : Eol) (result : SaveResult Diagnostic) : SaveResult Diagnostic × Option Octets × Disk :=
  let payload := restoreEol content eol
  match answers.failure with
  | some err => (result, some err, disk)
  | none =>
      ({ result with saved := true, sha256 := host.checksum content }, none,
        { disk with directory := disk.directory.writeFile path payload })

/-- The result, the error beside it, and the disk afterwards. -/
def mibEditorSave (host : Host Diagnostic) (answers : Answers) (disk : Disk)
    (name content baseSha256 : Octets) (force : Bool) :
    SaveResult Diagnostic × Option Octets × Disk :=
  match resolveMibPath host disk.directory name with
  | .error err => ({}, some err, disk)
  | .ok path =>
      let result := { diagnostics := host.validate content }
      match disk.directory.readFile path with
      | none => replaceFile host answers disk path content .lf result
      | some existing =>
          if !force && baseSha256 ≠ [] &&
              host.checksum (normaliseSource existing) ≠ baseSha256 then
            ({ result with conflict := true }, none, disk)
          else
            match answers.backup with
            | .error err =>
                (result, some (octets "could not back up " ++ name ++ octets " before saving: " ++
                  err), disk)
            | .ok backup =>
                replaceFile host answers
                  { disk with backups := disk.backups ++ [(backup, existing)] } path content
                  (eolOf existing) { result with backupPath := backup }

/-! ## What the flag says -/

/-- What becomes of an octet of the text. -/
def Eol.spell : Eol → UInt8 → Octets
  | .crlf, b => if b = chr '\n' then octets "\r\n" else [b]
  | .lf, b => [b]

theorem restoreEol_eq (content : Octets) (eol : Eol) :
    restoreEol content eol = content.flatMap eol.spell := by
  cases eol with
  | lf => exact (List.flatMap_singleton' content).symm
  | crlf => exact Substring.replaceAll_singleton (chr '\n') (octets "\r\n") content

theorem restoreEol_append (a b : Octets) (eol : Eol) :
    restoreEol (a ++ b) eol = restoreEol a eol ++ restoreEol b eol := by
  rw [restoreEol_eq, restoreEol_eq, restoreEol_eq, List.flatMap_append]

theorem restoreEol_of_not_mem {a : Octets} (h : chr '\n' ∉ a) (eol : Eol) :
    restoreEol a eol = a := by
  cases eol with
  | lf => rfl
  | crlf =>
      refine Substring.replaceAll_eq_self fun hin => h ?_
      exact hin.subset List.mem_cons_self

/-- Every LF of a text stands behind a CR. -/
def Paired (s : Octets) : Prop := ∀ a b, s = a ++ chr '\n' :: b → a.getLast? = some (chr '\r')

/-- What a file has to be for a save to make it again. -/
structure Restorable (raw : Octets) : Prop where
  bom : ¬ bomPrefix <+: raw
  endings : chr '\r' ∉ raw ∨ chr '\n' ∈ raw ∧ Paired raw

theorem paired_pair (s : Octets) : Paired (chr '\r' :: chr '\n' :: s) ↔ Paired s := by
  constructor
  · intro h a b hs
    have hlast := h (chr '\r' :: chr '\n' :: a) b (by rw [hs]; rfl)
    cases a with
    | nil => cases hlast
    | cons x a => simpa using hlast
  · intro h a b hs
    rcases a with _ | ⟨x, _ | ⟨y, a⟩⟩
    · exact absurd (List.cons.inj hs).1 (by decide)
    · rw [← (List.cons.inj hs).1]
      rfl
    · obtain ⟨rfl, htail⟩ := List.cons.inj hs
      obtain ⟨rfl, hrest⟩ := List.cons.inj htail
      have hlast := h a b hrest
      cases a with
      | nil => cases hlast
      | cons z a => simpa using hlast

theorem paired_cons {c : UInt8} {s : Octets} (hc : c ≠ chr '\n')
    (hpair : ¬ octets "\r\n" <+: c :: s) : Paired (c :: s) ↔ Paired s := by
  constructor
  · intro h a b hs
    have hlast := h (c :: a) b (by rw [hs]; rfl)
    cases a with
    | nil =>
        obtain rfl := Option.some.inj hlast
        exact absurd ⟨b, by rw [hs]; rfl⟩ hpair
    | cons x a => simpa using hlast
  · intro h a b hs
    cases a with
    | nil => exact absurd (List.cons.inj hs).1 hc
    | cons x a =>
        have hlast := h a b (List.cons.inj hs).2
        cases a with
        | nil => cases hlast
        | cons y a => simpa using hlast

/-- **The pairs that were folded come back** where every LF was half of one. -/
theorem restoreEol_fold (s : Octets) :
    restoreEol (Substring.replaceAll (octets "\r\n") (octets "\n") s) .crlf = s ↔ Paired s := by
  have hne : octets "\r\n" ≠ [] := by decide
  induction h : s.length using Nat.strong_induction_on generalizing s with
  | _ n ih =>
      subst h
      by_cases hpair : octets "\r\n" <+: s
      · obtain ⟨t, rfl⟩ := hpair
        have hlf : restoreEol (octets "\n") .crlf = octets "\r\n" := by decide
        have hlt : t.length < (octets "\r\n" ++ t).length := by
          rw [List.length_append]
          exact Nat.lt_add_of_pos_left (by decide)
        have hrest := ih t.length hlt t rfl
        rw [Substring.replaceAll_append hne, restoreEol_append, hlf, List.append_cancel_left_eq]
        exact hrest.trans (paired_pair t).symm
      · cases s with
        | nil => exact iff_of_true rfl fun a b hs => absurd hs (by simp)
        | cons c s =>
            have hsplit : c :: Substring.replaceAll (octets "\r\n") (octets "\n") s =
                [c] ++ Substring.replaceAll (octets "\r\n") (octets "\n") s := rfl
            rw [Substring.replaceAll_cons hpair, hsplit, restoreEol_append]
            by_cases hc : c = chr '\n'
            · -- A bare LF becomes a pair, and there was none.
              subst hc
              refine iff_of_false (fun h => ?_) fun h => ?_
              · exact absurd (List.cons.inj h).1 (by decide)
              · exact absurd (h [] s rfl) (by decide)
            · have hone : restoreEol [c] .crlf = [c] :=
                restoreEol_of_not_mem (by simpa using fun h => hc h.symm) .crlf
              have hrest := ih s.length (Nat.lt_succ_self _) s rfl
              rw [hone, List.singleton_append, List.cons.injEq, and_iff_right rfl]
              exact hrest.trans (paired_cons hc hpair).symm

theorem contains_crlf {s : Octets} :
    (index (octets "\r\n") s).isSome = true ↔ octets "\r\n" <:+: s := by
  rw [← cut_found]
  unfold index
  dsimp only
  split
  · rename_i h
    exact iff_of_true rfl h
  · rename_i h
    exact iff_of_false (by decide) h

theorem normaliseSource_eq (raw : Octets) :
    normaliseSource raw = if (index (octets "\r\n") (withoutBom raw)).isSome then
      Substring.replaceAll (octets "\r\n") (octets "\n") (withoutBom raw)
      else if (withoutBom raw).contains (chr '\r') then
        Substring.replaceAll (octets "\r") (octets "\n") (withoutBom raw)
      else withoutBom raw := rfl

/-- Neither folding the endings nor putting them back adds a first octet of a mark. -/
theorem count_restored (raw : Octets) :
    (restoreEol (normaliseSource raw) (eolOf raw)).count 0xef = (withoutBom raw).count 0xef := by
  unfold eolOf
  rw [normaliseSource_eq]
  split
  · show (Substring.replaceAll _ _ (Substring.replaceAll _ _ (withoutBom raw))).count 0xef = _
    rw [Substring.count_replaceAll (by decide) (by decide) (by decide),
      Substring.count_replaceAll (by decide) (by decide) (by decide)]
  · split
    · show (Substring.replaceAll _ _ (withoutBom raw)).count 0xef = _
      rw [Substring.count_replaceAll (by decide) (by decide) (by decide)]
    · rfl

/-- **Saving makes a file again** exactly when it has no mark and its endings are of one kind. -/
theorem restoreEol_normaliseSource (raw : Octets) :
    restoreEol (normaliseSource raw) (eolOf raw) = raw ↔ Restorable raw := by
  by_cases hbom : bomPrefix <+: raw
  · refine iff_of_false (fun heq => ?_) fun h => h.bom hbom
    obtain ⟨rest, rfl⟩ := hbom
    have hcount := count_restored (bomPrefix ++ rest)
    have hrest : withoutBom (bomPrefix ++ rest) = rest := by
      unfold withoutBom
      rw [if_pos (List.isPrefixOf_iff_prefix.mpr (List.prefix_append _ _)), List.drop_left]
    have hone : bomPrefix.count 0xef = 1 := by decide
    rw [heq, hrest, List.count_append, hone] at hcount
    omega
  · have hraw : withoutBom raw = raw :=
      if_neg fun h => hbom (List.isPrefixOf_iff_prefix.mp h)
    unfold eolOf
    rw [normaliseSource_eq, hraw]
    by_cases hpair : octets "\r\n" <:+: raw
    · have hcr : chr '\r' ∈ raw := hpair.subset List.mem_cons_self
      have hlf : chr '\n' ∈ raw := hpair.subset (List.mem_cons_of_mem _ List.mem_cons_self)
      rw [if_pos (contains_crlf.mpr hpair), if_pos (contains_crlf.mpr hpair), restoreEol_fold]
      constructor
      · exact fun h => ⟨hbom, .inr ⟨hlf, h⟩⟩
      · exact fun h => (h.endings.resolve_left fun hno => hno hcr).2
    · rw [if_neg (mt contains_crlf.mp hpair), if_neg (mt contains_crlf.mp hpair)]
      by_cases hcr : chr '\r' ∈ raw
      · -- Every CR was made an LF, and the flag says that LFs were all there was.
        rw [if_pos (List.contains_iff_mem.mpr hcr)]
        refine iff_of_false (fun heq => ?_) fun h => ?_
        · have hcr' : chr '\r' ∈ Substring.replaceAll [chr '\r'] (octets "\n") raw := by
            rw [show Substring.replaceAll [chr '\r'] (octets "\n") raw = raw from heq]
            exact hcr
          rw [Substring.replaceAll_singleton] at hcr'
          obtain ⟨b, -, hb⟩ := List.mem_flatMap.mp hcr'
          split at hb
          · exact absurd hb (by decide)
          · rename_i hne
            exact hne (List.mem_singleton.mp hb).symm
        · obtain ⟨hlf, hpaired⟩ := h.endings.resolve_left fun hno => hno hcr
          obtain ⟨a, b, rfl⟩ := List.append_of_mem hlf
          obtain ⟨a', rfl⟩ := List.getLast?_eq_some_iff.mp (hpaired a b rfl)
          exact hpair ⟨a', b, by simp [show octets "\r\n" = [chr '\r', chr '\n'] from rfl]⟩
      · rw [if_neg (mt List.contains_iff_mem.mp hcr)]
        exact iff_of_true rfl ⟨hbom, .inl hcr⟩

/-! ## What a save does to the directory -/

namespace Directory

variable {path content : Octets}

theorem readFile_writeFile_self (d : Directory) :
    (d.writeFile path content).readFile path = some content := by
  unfold writeFile
  split
  · rename_i h
    unfold readFile at h ⊢
    rw [List.find?_map]
    have hsame : ((fun f : Octets × Octets => f.1 == path) ∘
        fun f => if f.1 == path then (path, content) else f) = fun f => f.1 == path := by
      funext f
      by_cases hf : f.1 = path
      · simp [hf]
      · simp [hf]
    rw [hsame]
    cases hfind : d.files.find? fun f => f.1 == path with
    | none =>
        rw [hfind] at h
        exact absurd h Bool.false_ne_true
    | some f =>
        rw [Option.map_some, Option.map_some, if_pos (List.find?_some hfind)]
  · rename_i h
    unfold readFile at h ⊢
    rw [Bool.not_eq_true, Option.isSome_eq_false_iff, Option.isNone_map,
      Option.isNone_iff_eq_none] at h
    rw [List.find?_append, h, Option.none_or, List.find?_singleton, if_pos (beq_self_eq_true _)]
    rfl

theorem readFile_writeFile_of_ne (d : Directory) {p : Octets} (h : p ≠ path) :
    (d.writeFile path content).readFile p = d.readFile p := by
  have hskip : (path == p) = false := beq_eq_false_iff_ne.mpr fun heq => h heq.symm
  unfold writeFile
  split
  · unfold readFile
    dsimp only
    induction d.files with
    | nil => rfl
    | cons f files ih =>
        rw [List.map_cons, List.find?_cons, List.find?_cons]
        by_cases hf : f.1 = path
        · rw [if_pos (beq_iff_eq.mpr hf), hf, hskip]
          exact ih
        · rw [if_neg (mt beq_iff_eq.mp hf)]
          cases f.1 == p with
          | true => rfl
          | false => exact ih
  · unfold readFile
    rw [List.find?_append, List.find?_singleton, hskip]
    simp

end Directory

/-- What a save leaves: `payload` in the place of the file and no other file touched, or, where the
system fails it, an error and the directory as it was. -/
structure Replaces (disk : Disk) (path payload : Octets) (answers : Answers)
    (out : SaveResult Diagnostic × Option Octets × Disk) : Prop where
  done : answers.work = true → out.1.saved = true ∧ out.2.1 = none ∧
    out.2.2.directory.readFile path = some payload ∧
    ∀ other, other ≠ path → out.2.2.directory.readFile other = disk.directory.readFile other
  failed : answers.work = false → out.1.saved = false ∧ out.2.1.isSome = true ∧
    out.2.2.directory = disk.directory

variable {host : Host Diagnostic} {disk : Disk} {name path raw : Octets}

/-- A save from what is on the disk finds no conflict, and puts the endings of the file back. -/
theorem mibEditorSave_replaces (hpath : resolveMibPath host disk.directory name = .ok path)
    (hfile : disk.directory.readFile path = some raw) (answers : Answers) (content : Octets)
    (force : Bool) :
    Replaces disk path (restoreEol content (eolOf raw)) answers
      (mibEditorSave host answers disk name content (host.checksum (normaliseSource raw))
        force) := by
  have hsave : mibEditorSave host answers disk name content
      (host.checksum (normaliseSource raw)) force =
      match answers.backup with
      | .error err =>
          ({ diagnostics := host.validate content }, some (octets "could not back up " ++ name ++
            octets " before saving: " ++ err), disk)
      | .ok backup =>
          replaceFile host answers { disk with backups := disk.backups ++ [(backup, raw)] } path
            content (eolOf raw) { diagnostics := host.validate content, backupPath := backup } := by
    unfold mibEditorSave
    rw [hpath]
    dsimp only
    rw [hfile]
    simp
  rw [hsave]
  have hwork : answers.work = (answers.backup.isOk && answers.failure.isNone) := rfl
  cases hbackup : answers.backup with
  | error err =>
      rw [hbackup] at hwork
      exact ⟨fun h => absurd (hwork.symm.trans h) Bool.false_ne_true,
        fun _ => ⟨rfl, rfl, rfl⟩⟩
  | ok backup =>
      rw [hbackup] at hwork
      unfold replaceFile
      cases hfail : answers.failure with
      | some err =>
          rw [hfail] at hwork
          exact ⟨fun h => absurd (hwork.symm.trans h) Bool.false_ne_true,
            fun _ => ⟨rfl, rfl, rfl⟩⟩
      | none =>
          rw [hfail] at hwork
          exact ⟨fun _ => ⟨rfl, rfl, disk.directory.readFile_writeFile_self,
            fun other hne => disk.directory.readFile_writeFile_of_ne hne⟩,
            fun h => absurd (h.symm.trans hwork) Bool.false_ne_true⟩

theorem mibEditorRead_ok (hpath : resolveMibPath host disk.directory name = .ok path)
    (hfile : disk.directory.readFile path = some raw) (hvalid : valid raw = true) :
    ∃ source, mibEditorRead host disk name = .ok source ∧ source.content = normaliseSource raw ∧
      source.sha256 = host.checksum (normaliseSource raw) := by
  unfold mibEditorRead
  rw [hpath]
  dsimp only
  rw [hfile]
  dsimp only
  rw [if_pos hvalid]
  exact ⟨_, rfl, rfl, rfl⟩

/-! ## Opening and saving -/

/-- Saved as it was opened, the file is as it was. -/
def Unchanged (host : Host Diagnostic) (disk : Disk) (name path raw : Octets)
    (source : Source Diagnostic) : Prop :=
  ∀ answers force, Replaces disk path raw answers
    (mibEditorSave host answers disk name source.content source.sha256 force)

/-- Whatever is put for a stretch `old` of one line, what stands around it on the disk stays. -/
def Local (host : Host Diagnostic) (disk : Disk) (name path raw : Octets)
    (source : Source Diagnostic) : Prop :=
  ∀ a old b, source.content = a ++ old ++ b → chr '\n' ∉ old →
    ∃ before behind, raw = before ++ old ++ behind ∧
      ∀ new, chr '\n' ∉ new → ∀ answers force,
        Replaces disk path (before ++ new ++ behind) answers
          (mibEditorSave host answers disk name (a ++ new ++ b) source.sha256 force)

/-- **Opening a file and saving it** gives the same octets back, and an edit of a line leaves every
other octet, exactly when the file has no byte order mark and either no CR or no LF that does not
stand behind one. -/
theorem saved_as_opened (hpath : resolveMibPath host disk.directory name = .ok path)
    (hfile : disk.directory.readFile path = some raw) (hvalid : valid raw = true) :
    (∃ source, mibEditorRead host disk name = .ok source ∧
      Unchanged host disk name path raw source ∧ Local host disk name path raw source) ↔
      Restorable raw := by
  obtain ⟨source, hread, hcontent, hsha⟩ := mibEditorRead_ok hpath hfile hvalid
  have hsaves : ∀ answers content force, Replaces disk path (restoreEol content (eolOf raw)) answers
      (mibEditorSave host answers disk name content source.sha256 force) := by
    intro answers content force
    rw [hsha]
    exact mibEditorSave_replaces hpath hfile answers content force
  constructor
  · intro h
    obtain ⟨source', hread', hsame, -⟩ := h
    obtain rfl : source = source' := Except.ok.inj (hread.symm.trans hread')
    let answers : Answers :=
      { backup := .ok [], mkdirAll := none, writeFile := none, rename := none }
    have hkept := ((hsame answers false).done rfl).2.2.1
    have hput := ((hsaves answers source.content false).done rfl).2.2.1
    have heq := Option.some.inj (hput.symm.trans hkept)
    rw [hcontent] at heq
    exact (restoreEol_normaliseSource raw).mp heq
  · intro h
    have heq : restoreEol source.content (eolOf raw) = raw := by
      rw [hcontent]
      exact (restoreEol_normaliseSource raw).mpr h
    refine ⟨source, hread, fun answers force => ?_, fun a old b hsplit hold => ?_⟩
    · have hput := hsaves answers source.content force
      rwa [heq] at hput
    · refine ⟨restoreEol a (eolOf raw), restoreEol b (eolOf raw), ?_,
        fun new hnew answers force => ?_⟩
      · rw [hsplit, restoreEol_append, restoreEol_append, restoreEol_of_not_mem hold] at heq
        exact heq.symm
      · have hput := hsaves answers (a ++ new ++ b) force
        rwa [restoreEol_append, restoreEol_append, restoreEol_of_not_mem hnew] at hput

/-! ## Two files -/

/-- A directory with one file, `A-MIB`. -/
def diskWith (raw : Octets) : Disk where
  directory :=
    { lib := { toUpper := id, toLower := id, equalFold := fun a b => a == b,
               paths := Filepath.unix }
      files := [(octets "A-MIB", raw)] }
  backups := []

def toyHost : Host Unit where
  checksum := id
  validate := fun _ => []
  bundled := fun _ => false
  quote := id
  missing := id

theorem opened_in_toy (raw : Octets) :
    resolveMibPath toyHost (diskWith raw).directory (octets "A-MIB") = .ok (octets "A-MIB") ∧
      (diskWith raw).directory.readFile (octets "A-MIB") = some raw := by
  refine ⟨?_, rfl⟩
  have hclean : (diskWith raw).directory.safeMibPath (octets "A-MIB") = some (octets "A-MIB") := by
    show (let clean := Filepath.base Filepath.unix (trimSpace (octets "A-MIB"))
      if clean = [] || clean = octets "." || clean = [chr '/'] then none else some clean) = _
    decide
  unfold resolveMibPath
  rw [hclean]
  exact if_neg (by decide)

theorem crlf_file_saved_as_opened :
    ∃ source,
      mibEditorRead toyHost (diskWith (octets "A\r\nB\r\n")) (octets "A-MIB") = .ok source ∧
      Unchanged toyHost (diskWith (octets "A\r\nB\r\n")) (octets "A-MIB") (octets "A-MIB")
        (octets "A\r\nB\r\n") source ∧
      Local toyHost (diskWith (octets "A\r\nB\r\n")) (octets "A-MIB") (octets "A-MIB")
        (octets "A\r\nB\r\n") source := by
  have hopened := opened_in_toy (octets "A\r\nB\r\n")
  have hvalid := valid_iff.mpr (isText_octets "A\r\nB\r\n")
  refine (saved_as_opened hopened.1 hopened.2 hvalid).mpr ?_
  have hrestored : restoreEol (normaliseSource (octets "A\r\nB\r\n"))
      (eolOf (octets "A\r\nB\r\n")) = octets "A\r\nB\r\n" := by decide
  exact (restoreEol_normaliseSource _).mp hrestored

/-- A bare LF in a file that has a CRLF is saved as a CRLF. -/
theorem bare_lf_rewritten :
    ¬ ∃ source,
      mibEditorRead toyHost (diskWith (octets "A\r\nB\n")) (octets "A-MIB") = .ok source ∧
      Unchanged toyHost (diskWith (octets "A\r\nB\n")) (octets "A-MIB") (octets "A-MIB")
        (octets "A\r\nB\n") source := by
  intro h
  obtain ⟨source, hread, hsame⟩ := h
  have hopened := opened_in_toy (octets "A\r\nB\n")
  have hvalid := valid_iff.mpr (isText_octets "A\r\nB\n")
  obtain ⟨source', hread', hcontent, hsha⟩ := mibEditorRead_ok hopened.1 hopened.2 hvalid
  obtain rfl : source' = source := Except.ok.inj (hread'.symm.trans hread)
  let answers : Answers :=
    { backup := .ok [], mkdirAll := none, writeFile := none, rename := none }
  have hkept := ((hsame answers false).done rfl).2.2.1
  rw [hcontent, hsha] at hkept
  have hput := ((mibEditorSave_replaces hopened.1 hopened.2 answers
    (normaliseSource (octets "A\r\nB\n")) false).done rfl).2.2.1
  exact absurd (Option.some.inj (hput.symm.trans hkept)) (by decide)

end SnmpLens.Mib
