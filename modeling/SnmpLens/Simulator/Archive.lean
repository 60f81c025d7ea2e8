import SnmpLens.Lib.Fold
import SnmpLens.Lib.SlashPath

/-!
# A model archive, imported within a budget

`simmodels.go`. A ZIP archive holds models: each folder with a model.json in it is a package,
and every other .json file is a model on its own. All of it is unpacked through one gate,
`archive.read`, which counts what it unpacks; once the count is past the budget the import
stops.

What a model file says, and whether there is room to keep it, is the business of the model
directory: `Models` stands for it, and every result holds whatever it does.
-/

namespace SnmpLens.ModelArchive

open Utf8 Fold SlashPath

def maxArchiveEntries : Nat := 64

def maxArchiveUnpacked : Nat := 40 * 2 ^ 20

def maxModelIconBytes : Nat := 256 * 2 ^ 10

/-- `simulator.MaxCustomModelBytes`. -/
def maxCustomModelBytes : Nat := 2 ^ 20

/-- `simulator.MaxWalkBytes`. -/
def maxWalkBytes : Nat := 16 * 2 ^ 20

/-- `simulator.PackageModelFile`. -/
def packageModelFile : Octets := octets "model.json"

/-! ## What an archive holds -/

/-- `zip.File`: what its header says, and what reading it gives. -/
structure Entry where
  name : Octets
  /-- Its mode is that of a folder. -/
  dirMode : Bool
  /-- `UncompressedSize64`. -/
  declared : Nat
  opens : Bool
  /-- What is unpacked before it ends or fails. -/
  content : Octets
  /-- It ends as its header says, and does not fail. -/
  sound : Bool
  /-- `archive/zip` stops at the size an entry declares. -/
  stops : content.length ≤ declared
deriving DecidableEq

/-- `FileInfo().IsDir()`. -/
def Entry.isDir (f : Entry) : Bool := f.dirMode || f.name.getLast? == some slash

/-- One call of `read`. -/
structure Reading where
  entry : Entry
  limit : Nat

/-- What came out of the entry. -/
def Reading.came (r : Reading) : Octets :=
  if r.limit < r.entry.declared ∨ r.entry.opens = false then []
  else r.entry.content.take (r.limit + 1)

/-- Nothing came out of it, or it ended as it should. -/
def Reading.Ends (r : Reading) : Prop := r.entry.sound = true ∨ r.came = []

/-- What came out of an entry that then failed. -/
def Reading.lost (r : Reading) : Nat := if r.entry.sound then 0 else r.came.length

/-- `archive`. The log is every read there was, which the code keeps no record of. -/
structure Archive where
  files : List Entry
  unpacked : Nat := 0
  log : List Reading := []

/-- Why something is not read, or not imported. -/
inductive Refusal where
  | tooManyFiles (files : Nat)
  | tooLarge (name : Octets) (kb : Nat)
  | broken (name : Octets)
  | spent (mb : Nat)
  | noModel
  | refused (reason : Octets)
deriving DecidableEq, Repr

/-- What `openArchive` lists: no folder, no dotfile and none of the resource forks macOS adds. -/
def Entry.listed (f : Entry) : Bool :=
  !(f.isDir || (octets "__MACOSX/").isPrefixOf f.name || (octets ".").isPrefixOf (base f.name))

/-- `openArchive`, of what `zip.NewReader` lists. -/
def openArchive (zip : List Entry) : Except Refusal Archive :=
  let files := zip.filter Entry.listed
  if maxArchiveEntries < files.length then .error (.tooManyFiles files.length)
  else .ok { files }

def Archive.read (ar : Archive) (f : Entry) (limit : Nat) : Archive × Except Refusal Octets :=
  let ar := { ar with log := ⟨f, limit⟩ :: ar.log }
  if limit < f.declared then (ar, .error (.tooLarge (base f.name) (limit / 1024)))
  else if f.opens = false then (ar, .error (.broken (base f.name)))
  else
    let b := f.content.take (limit + 1)
    -- past the limit the reader ends before the entry can fail
    if f.sound = false ∧ f.content.length ≤ limit then (ar, .error (.broken (base f.name)))
    else if limit < b.length then (ar, .error (.tooLarge (base f.name) (limit / 1024)))
    else
      let ar := { ar with unpacked := ar.unpacked + b.length }
      if maxArchiveUnpacked < ar.unpacked then (ar, .error (.spent (maxArchiveUnpacked / 2 ^ 20)))
      else (ar, .ok b)

def Archive.exhausted (ar : Archive) : Bool := maxArchiveUnpacked < ar.unpacked

/-! ## Models -/

/-- `simulator.PackageFile`. -/
structure PackageFile where
  name : Octets
  data : Octets
deriving DecidableEq, Repr

/-- The model directory, and what is read in a model file. -/
structure Models (σ μ : Type) where
  /-- `strings.ToLower`. -/
  toLower : Octets → Octets
  parseCustomModel : Octets → Except Octets μ
  parseCustomPackage : List PackageFile → Except Octets μ
  icon : μ → Octets
  repack : List PackageFile → Except Octets Octets
  checkIcon : Octets → Except Octets Unit
  /-- What `keepModel` does before it looks for the icon: there may be no room. -/
  ready : σ → μ → Except Octets σ
  /-- What it does with the icon, once it has looked. -/
  keep : σ → μ → Octets → Option Octets → σ × Option Octets

/-- `SimulatorModelWarning`, less the ones a model's own checks give. -/
inductive Warning where
  | packageIgnored (name : Octets)
  | iconMissing (name : Octets)
  | iconRefused (reason : Refusal)
deriving DecidableEq, Repr

/-- What an import is of. -/
inductive Source where
  | package (root : Octets) (members : List Entry)
  | alone (file : Entry)

/-- `SimulatorModelImportResult`. -/
structure ModelImport where
  source : Source
  error : Option Refusal
  warnings : List Warning

variable {σ μ : Type} (M : Models σ μ)

def Archive.icon (ar : Archive) (found : Option Entry) (name : Octets) :
    Archive × Option Octets × Option Warning :=
  match found with
  | none => (ar, none, some (.iconMissing name))
  | some f =>
      match ar.read f maxModelIconBytes with
      | (ar, .error err) => (ar, none, some (.iconRefused err))
      | (ar, .ok data) =>
          match M.checkIcon data with
          | .error err => (ar, none, some (.iconRefused (.refused err)))
          | .ok _ => (ar, some data, none)

/-- The `lookup` of an import: the first file of that name, but the last that is `near`. -/
def lookup (near : Entry → Bool) (files : List Entry) (icon : Octets) : Option Entry :=
  files.foldl (fun found f =>
    if base f.name == icon && (found.isNone || near f) then some f else found) none

/-- `keepModel`, as far as it goes through the archive. -/
def keepModel (s : σ) (ar : Archive) (source : Source) (warnings : List Warning) (m : μ)
    (lookup : Octets → Option Entry) (data : Octets) : σ × Archive × ModelImport :=
  match M.ready s m with
  | .error err => (s, ar, { source, error := some (.refused err), warnings })
  | .ok s =>
      let (ar, icon, warning) :=
        if M.icon m = [] then (ar, none, none) else ar.icon M (lookup (M.icon m)) (M.icon m)
      let (s, err) := M.keep s m data icon
      (s, ar, { source, error := err.map .refused, warnings := warnings ++ warning.toList })

/-- `bytes.TrimPrefix(raw, utf8BOM)`. -/
def trimBom (raw : Octets) : Octets :=
  if [0xef, 0xbb, 0xbf].isPrefixOf raw then raw.drop 3 else raw

def importArchivedModel (s : σ) (ar : Archive) (f : Entry) : σ × Archive × ModelImport :=
  match ar.read f maxCustomModelBytes with
  | (ar, .error err) => (s, ar, { source := .alone f, error := some err, warnings := [] })
  | (ar, .ok raw) =>
      match M.parseCustomModel (trimBom raw) with
      | .error err => (s, ar, { source := .alone f, error := some (.refused err), warnings := [] })
      | .ok m =>
          keepModel M s ar (.alone f) [] m
            (fun icon => lookup (fun g => dir g.name == dir f.name) ar.files icon) (trimBom raw)

/-! ## Packages -/

inductive Role where
  | model
  | traps
  | oids
  | walk
deriving DecidableEq, Repr

def packageRole (name : Octets) : Option Role :=
  let lower := M.toLower name
  if lower = packageModelFile then some .model
  else if lower = octets "traps.json" then some .traps
  else if lower = octets "oids.json" then some .oids
  else
    let dir := parent lower
    let base := file lower
    if base = [] ∨ (octets ".").isPrefixOf base ∨ 128 < base.length then none
    else if dir = octets "oids/" ∧ ext base = octets ".json" then some .oids
    else if dir = octets "walks/" then some .walk
    else none

def packageReads (name : Octets) : Bool := (packageRole M name).isSome

def packageFileLimit (name : Octets) : Nat :=
  if (octets "walks/").isPrefixOf (M.toLower name) then maxWalkBytes else maxCustomModelBytes

/-- `strings.EqualFold(path.Ext(name), ".json")`. -/
def isJson (name : Octets) : Bool := equalFold (ext name) (octets ".json")

/-- `inPackage`, of a package's import: a file's name in the package. -/
def inPackage (root name : Octets) : Octets :=
  if root = here then name
  else if (root ++ [slash]).isPrefixOf name then name.drop (root.length + 1)
  else name

/-- The loop of `importPackage`. -/
def readMembers (root : Octets) (ar : Archive) (warnings : List Warning) (files : List PackageFile) :
    List Entry → Archive × List Warning × Except Refusal (List PackageFile)
  | [] => (ar, warnings, .ok files)
  | f :: rest =>
      let rel := inPackage root f.name
      if packageReads M rel then
        match ar.read f (packageFileLimit M rel) with
        | (ar, .error err) => (ar, warnings, .error err)
        | (ar, .ok data) => readMembers root ar warnings (files ++ [⟨rel, data⟩]) rest
      else if isJson rel then
        readMembers root ar (warnings ++ [.packageIgnored rel]) files rest
      else readMembers root ar warnings files rest

def importPackage (s : σ) (ar : Archive) (root : Octets) (members : List Entry) :
    σ × Archive × ModelImport :=
  let source := .package root members
  match readMembers M root ar [] [] members with
  | (ar, warnings, .error err) => (s, ar, { source, error := some err, warnings })
  | (ar, warnings, .ok files) =>
      match M.parseCustomPackage files with
      | .error err => (s, ar, { source, error := some (.refused err), warnings })
      | .ok m =>
          match M.repack files with
          | .error err => (s, ar, { source, error := some (.refused err), warnings })
          | .ok packed =>
              keepModel M s ar source warnings m
                (fun icon => lookup (fun f => inPackage root f.name == icon) members icon) packed

/-! ## The whole archive -/

/-- The folders that hold a model.json, in the order they are met. -/
def rootsOf (files : List Entry) : List Octets :=
  files.foldl (fun roots f =>
    if equalFold (base f.name) packageModelFile && !roots.contains (dir f.name) then
      roots ++ [dir f.name]
    else roots) []

/-- Whether a file's name shows it to be in a folder. -/
def leads (root name : Octets) : Bool := root == here || (root ++ [slash]).isPrefixOf name

/-- One folder of the loop of `packageOf`. -/
def choose (name : Octets) (best : Option Octets) (r : Octets) : Option Octets :=
  if leads r name && best.all (fun b => b.length < r.length) then some r else best

def packageOf (roots : List Octets) (name : Octets) : Option Octets :=
  roots.foldl (choose name) none

/-- What there is in the middle of an import. -/
structure Run (σ : Type) where
  dir : σ
  archive : Archive
  imported : List Octets := []
  results : List ModelImport := []

/-- `append(results, …)`. -/
def Run.with (run : Run σ) (done : σ × Archive × ModelImport) : Run σ :=
  { run with dir := done.1, archive := done.2.1, results := run.results ++ [done.2.2] }

/-- The loop of `importModelArchive`. -/
def importFiles (files : List Entry) (run : Run σ) : List Entry → Run σ
  | [] => run
  | f :: rest =>
      if run.archive.exhausted then run
      else
        match packageOf (rootsOf files) f.name with
        | some root =>
            if root ∈ run.imported then importFiles files run rest
            else
              let members := files.filter fun g => packageOf (rootsOf files) g.name == some root
              let run := { run with imported := root :: run.imported }
              importFiles files (run.with (importPackage M run.dir run.archive root members)) rest
        | none =>
            if isJson f.name then
              importFiles files (run.with (importArchivedModel M run.dir run.archive f)) rest
            else importFiles files run rest

/-- `importModelArchive`, once the archive is open. -/
def importOpened (s : σ) (ar : Archive) : Run σ :=
  importFiles M ar.files { dir := s, archive := ar } ar.files

def importModelArchive (s : σ) (zip : List Entry) : σ × Except Refusal (List ModelImport) :=
  match openArchive zip with
  | .error err => (s, .error err)
  | .ok ar =>
      let run := importOpened M s ar
      (run.dir, if run.results.isEmpty then .error .noModel else .ok run.results)

/-! ## What is counted -/

/-- Every octet that came out of an entry. -/
def Archive.total (ar : Archive) : Nat := ar.log.foldr (fun r n => r.came.length + n) 0

/-- What came out of entries that then failed. -/
def Archive.lost (ar : Archive) : Nat := ar.log.foldr (fun r n => r.lost + n) 0

/-- The budget, and one entry's limit. -/
def Archive.Within (ar : Archive) (n : Nat) : Prop :=
  n ≤ maxArchiveUnpacked ∨ ∃ r ∈ ar.log, n ≤ maxArchiveUnpacked + r.limit

/-- **One read**: what comes out is counted, unless the entry fails. -/
theorem read_spec (ar : Archive) (f : Entry) (limit : Nat) :
    ∃ n, (ar.read f limit).1
        = { files := ar.files, unpacked := ar.unpacked + n, log := ⟨f, limit⟩ :: ar.log } ∧
      n + (Reading.mk f limit).lost = (Reading.mk f limit).came.length ∧ n ≤ limit ∧
      ∀ b, (ar.read f limit).2 = .ok b → ar.unpacked + n ≤ maxArchiveUnpacked := by
  by_cases hlarge : limit < f.declared
  · have hcame : (Reading.mk f limit).came = [] := by
      unfold Reading.came
      rw [if_pos (.inl hlarge)]
    have hread : ar.read f limit = ({ ar with log := ⟨f, limit⟩ :: ar.log },
        .error (.tooLarge (base f.name) (limit / 1024))) := by
      unfold Archive.read
      rw [if_pos hlarge]
    refine ⟨0, by rw [hread]; rfl, ?_, Nat.zero_le _, fun b hb => ?_⟩
    · unfold Reading.lost
      rw [hcame]
      simp
    · rw [hread] at hb
      cases hb
  · by_cases hopens : f.opens = false
    · have hcame : (Reading.mk f limit).came = [] := by
        unfold Reading.came
        rw [if_pos (.inr hopens)]
      have hread : ar.read f limit = ({ ar with log := ⟨f, limit⟩ :: ar.log },
          .error (.broken (base f.name))) := by
        unfold Archive.read
        rw [if_neg hlarge, if_pos hopens]
      refine ⟨0, by rw [hread]; rfl, ?_, Nat.zero_le _, fun b hb => ?_⟩
      · unfold Reading.lost
        rw [hcame]
        simp
      · rw [hread] at hb
        cases hb
    · -- what an entry gives is no longer than it declares
      have hfits : f.content.length ≤ limit := Nat.le_trans f.stops (Nat.le_of_not_lt hlarge)
      have hall : f.content.take (limit + 1) = f.content := List.take_of_length_le (by omega)
      have hcame : (Reading.mk f limit).came = f.content := by
        unfold Reading.came
        rw [if_neg (fun h => h.elim hlarge hopens)]
        exact hall
      cases hsound : f.sound with
      | false =>
          have hread : ar.read f limit = ({ ar with log := ⟨f, limit⟩ :: ar.log },
              .error (.broken (base f.name))) := by
            unfold Archive.read
            dsimp only
            rw [if_neg hlarge, if_neg hopens, if_pos ⟨hsound, hfits⟩]
          refine ⟨0, by rw [hread]; rfl, ?_, Nat.zero_le _, fun b hb => ?_⟩
          · unfold Reading.lost
            rw [hcame]
            simp [hsound]
          · rw [hread] at hb
            cases hb
      | true =>
          refine ⟨f.content.length, ?_, ?_, hfits, ?_⟩
          · unfold Archive.read
            dsimp only
            rw [if_neg hlarge, if_neg hopens, if_neg (by simp [hsound]), hall,
              if_neg (Nat.not_lt.mpr hfits)]
            split <;> rfl
          · unfold Reading.lost
            rw [hcame]
            simp [hsound]
          · intro b hb
            unfold Archive.read at hb
            dsimp only at hb
            rw [if_neg hlarge, if_neg hopens, if_neg (by simp [hsound]), hall,
              if_neg (Nat.not_lt.mpr hfits)] at hb
            split at hb
            · cases hb
            · rename_i hspent
              exact Nat.le_of_not_lt hspent

/-- Reads one after the other, none once the budget is spent. -/
inductive Reads (a : Archive) : Archive → Prop
  | none : Reads a a
  | read {b : Archive} (f : Entry) (limit : Nat) : Reads a b → b.unpacked ≤ maxArchiveUnpacked →
      Reads a (b.read f limit).1

theorem Reads.trans {a b c : Archive} (hab : Reads a b) (hbc : Reads b c) : Reads a c := by
  induction hbc with
  | none => exact hab
  | read f limit _ hroom ih => exact .read f limit ih hroom

theorem Reads.one {a : Archive} (f : Entry) (limit : Nat) (hroom : a.unpacked ≤ maxArchiveUnpacked) :
    Reads a (a.read f limit).1 := .read f limit .none hroom

theorem room_of_ok {a : Archive} {f : Entry} {limit : Nat} {b : Octets}
    (h : (a.read f limit).2 = .ok b) : (a.read f limit).1.unpacked ≤ maxArchiveUnpacked := by
  obtain ⟨n, hread, _, _, hok⟩ := read_spec a f limit
  rw [hread]
  exact hok b h

/-- An archive nothing was read of. -/
def Archive.Fresh (ar : Archive) : Prop := ar.unpacked = 0 ∧ ar.log = []

/-- **What comes out is what is counted and what is lost.** -/
theorem Reads.account {a b : Archive} (hfresh : a.Fresh) (h : Reads a b) :
    b.total = b.unpacked + b.lost := by
  induction h with
  | none =>
      unfold Archive.total Archive.lost
      rw [hfresh.1, hfresh.2]
      rfl
  | @read b f limit _ _ ih =>
      obtain ⟨n, hread, hcame, _⟩ := read_spec b f limit
      rw [hread]
      have htotal : b.total = b.log.foldr (fun r n => r.came.length + n) 0 := rfl
      have hlost : b.lost = b.log.foldr (fun r n => r.lost + n) 0 := rfl
      unfold Archive.total Archive.lost
      rw [List.foldr_cons, List.foldr_cons, ← htotal, ← hlost]
      dsimp only
      omega

/-- **What is counted stays within the budget and one entry's limit**: only the last read can
go past the budget. -/
theorem Reads.counted {a b : Archive} (hfresh : a.Fresh) (h : Reads a b) : b.Within b.unpacked := by
  cases h with
  | none =>
      left
      rw [hfresh.1]
      exact Nat.zero_le _
  | @read b f limit _ hroom =>
      obtain ⟨n, hread, _, hn, _⟩ := read_spec b f limit
      rw [hread]
      refine .inr ⟨⟨f, limit⟩, List.mem_cons_self, ?_⟩
      dsimp only
      omega

variable {ar : Archive}

theorem lost_of_ends (h : ∀ r ∈ ar.log, r.Ends) : ar.lost = 0 := by
  unfold Archive.lost
  generalize ar.log = log at h
  induction log with
  | nil => rfl
  | cons r log ih =>
      have hr : r.lost = 0 := by
        unfold Reading.lost
        rcases h r List.mem_cons_self with hsound | hcame
        · rw [if_pos hsound]
        · rw [hcame]
          simp
      rw [List.foldr_cons, hr, ih fun x hx => h x (List.mem_cons_of_mem r hx)]

/-! ## Every import goes through the gate -/

theorem icon_reads (hroom : ar.unpacked ≤ maxArchiveUnpacked) (found : Option Entry) (name : Octets)
    : Reads ar (ar.icon M found name).1 := by
  cases found with
  | none => exact .none
  | some f =>
      have hread := Reads.one f maxModelIconBytes hroom
      unfold Archive.icon
      dsimp only
      rcases hres : ar.read f maxModelIconBytes with ⟨ar', res⟩
      rw [hres] at hread
      cases res with
      | error err => exact hread
      | ok data =>
          dsimp only
          split <;> exact hread

theorem keepModel_reads (s : σ) (hroom : ar.unpacked ≤ maxArchiveUnpacked) (source : Source)
    (warnings : List Warning) (m : μ) (lookup : Octets → Option Entry) (data : Octets) :
    Reads ar (keepModel M s ar source warnings m lookup data).2.1 ∧
      (keepModel M s ar source warnings m lookup data).2.2.source = source := by
  unfold keepModel
  split
  · exact ⟨.none, rfl⟩
  · dsimp only
    refine ⟨?_, rfl⟩
    split
    · exact .none
    · exact icon_reads M hroom _ _

theorem importArchivedModel_reads (s : σ) (hroom : ar.unpacked ≤ maxArchiveUnpacked) (f : Entry) :
    Reads ar (importArchivedModel M s ar f).2.1 ∧
      (importArchivedModel M s ar f).2.2.source = .alone f := by
  have hread := Reads.one f maxCustomModelBytes hroom
  have hok := @room_of_ok ar f maxCustomModelBytes
  unfold importArchivedModel
  rcases hres : ar.read f maxCustomModelBytes with ⟨ar', res⟩
  rw [hres] at hread hok
  cases res with
  | error err => exact ⟨hread, rfl⟩
  | ok raw =>
      dsimp only
      split
      · exact ⟨hread, rfl⟩
      · rename_i m _
        have hkeep := keepModel_reads M s (hok rfl) (.alone f) [] m
          (fun icon => lookup (fun g => dir g.name == dir f.name) ar'.files icon) (trimBom raw)
        exact ⟨hread.trans hkeep.1, hkeep.2⟩

theorem readMembers_reads (root : Octets) (hroom : ar.unpacked ≤ maxArchiveUnpacked)
    (warnings : List Warning) (files : List PackageFile) (members : List Entry) :
    Reads ar (readMembers M root ar warnings files members).1 ∧
      ∀ read, (readMembers M root ar warnings files members).2.2 = .ok read →
        (readMembers M root ar warnings files members).1.unpacked ≤ maxArchiveUnpacked := by
  induction members generalizing ar warnings files with
  | nil => exact ⟨.none, fun _ _ => hroom⟩
  | cons f rest ih =>
      unfold readMembers
      dsimp only
      split
      · have hread := Reads.one f (packageFileLimit M (inPackage root f.name)) hroom
        have hok := @room_of_ok ar f (packageFileLimit M (inPackage root f.name))
        rcases hres : ar.read f (packageFileLimit M (inPackage root f.name)) with ⟨ar', res⟩
        rw [hres] at hread hok
        cases res with
        | error err => exact ⟨hread, fun _ h => by cases h⟩
        | ok data =>
            obtain ⟨hrest, hroom'⟩ := ih (hok rfl) warnings (files ++ [⟨inPackage root f.name, data⟩])
            exact ⟨hread.trans hrest, hroom'⟩
      · split
        · exact ih hroom _ files
        · exact ih hroom warnings files

theorem importPackage_reads (s : σ) (hroom : ar.unpacked ≤ maxArchiveUnpacked) (root : Octets)
    (members : List Entry) :
    Reads ar (importPackage M s ar root members).2.1 ∧
      (importPackage M s ar root members).2.2.source = .package root members := by
  obtain ⟨hread, hok⟩ := readMembers_reads M root hroom [] [] members
  unfold importPackage
  dsimp only
  rcases hres : readMembers M root ar [] [] members with ⟨ar', warnings, res⟩
  rw [hres] at hread hok
  cases res with
  | error err => exact ⟨hread, rfl⟩
  | ok files =>
      dsimp only
      split
      · exact ⟨hread, rfl⟩
      · split
        · exact ⟨hread, rfl⟩
        · rename_i m _ _ packed _
          have hkeep := keepModel_reads M s (hok files rfl) (.package root members) warnings m
            (fun icon => lookup (fun f => inPackage root f.name == icon) members icon) packed
          exact ⟨hread.trans hkeep.1, hkeep.2⟩

/-- **The whole import goes through the gate, and stops once the budget is spent.** -/
theorem importFiles_reads (files : List Entry) (run : Run σ) (entries : List Entry) :
    Reads run.archive (importFiles M files run entries).archive := by
  induction entries generalizing run with
  | nil => exact .none
  | cons f rest ih =>
      unfold importFiles
      split
      · exact .none
      · rename_i hexhausted
        have hroom : run.archive.unpacked ≤ maxArchiveUnpacked := by
          unfold Archive.exhausted at hexhausted
          simpa using hexhausted
        split
        · split
          · exact ih run
          · rename_i root _ _
            let members := files.filter fun g => packageOf (rootsOf files) g.name == some root
            have hdone := importPackage_reads M run.dir hroom root members
            have hrest := ih (Run.with { run with imported := root :: run.imported }
              (importPackage M run.dir run.archive root members))
            exact hdone.1.trans hrest
        · split
          · have hdone := importArchivedModel_reads M run.dir hroom f
            have hrest := ih (run.with (importArchivedModel M run.dir run.archive f))
            exact hdone.1.trans hrest
          · exact ih run

theorem fresh_of_openArchive {zip : List Entry} (h : openArchive zip = .ok ar) :
    ar.Fresh := by
  unfold openArchive at h
  dsimp only at h
  split at h
  · cases h
  · cases h
    exact ⟨rfl, rfl⟩

/-- **An archive stays within its budget** when nothing that was read failed on the way. -/
theorem total_within {zip : List Entry} (h : openArchive zip = .ok ar) (s : σ)
    (hends : ∀ r ∈ (importOpened M s ar).archive.log, r.Ends) :
    (importOpened M s ar).archive.Within (importOpened M s ar).archive.total := by
  have hreads : Reads ar (importOpened M s ar).archive :=
    importFiles_reads M ar.files { dir := s, archive := ar } ar.files
  have hfresh := fresh_of_openArchive h
  have hcounted := hreads.counted hfresh
  have haccount := hreads.account hfresh
  rw [lost_of_ends hends, Nat.add_zero] at haccount
  rwa [haccount]

end SnmpLens.ModelArchive
