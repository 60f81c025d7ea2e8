import SnmpLens.Lib.Filepath
import SnmpLens.Lib.Machine
import SnmpLens.Lib.Strings

/-!
# The MIB editor and its drafts

`frontend/src/stores/mibEditorStore.js`, and the names `internal/app/mibeditor.go` files drafts
under. `open` awaits the write of the pending draft, the file and the file's draft in turn, and
`markSaved` follows an awaited save; in between the user types, other files are opened and the
timer of the draft runs out. Go executes the calls about drafts in the order they were made, so
what they do is done when they are made, and a draft is written when it is asked for.

A file is told by its name in the MIB directory, or by its path where it was opened from outside.
What has been typed in a file since it was last saved, reverted, undone or discarded is `owed` to
it. `close`, which nothing calls, is left out.
-/

namespace SnmpLens.MibEditor

open Utf8 Strings Filepath Machine

/-! ## Files, keys and drafts -/

/-- `mib.Source`, as far as drafts go. -/
structure Source where
  name : Octets
  path : Octets
  content : Octets
  external : Bool
deriving DecidableEq

inductive File where
  | mib (name : Octets)
  | external (path : Octets)
deriving DecidableEq

/-- An octet that `/[^A-Za-z0-9._-]+/` does not match. -/
def plain (b : UInt8) : Bool :=
  (chr 'A' ≤ b && b ≤ chr 'Z') || (chr 'a' ≤ b && b ≤ chr 'z') || (chr '0' ≤ b && b ≤ chr '9') ||
    b == chr '.' || b == chr '_' || b == chr '-'

/-- The rest of a text whose runs of other octets become one `_` each, in such a run or not. -/
def flattenFrom (inside : Bool) : Octets → Octets
  | [] => []
  | b :: text =>
      if plain b then b :: flattenFrom false text
      else if inside then flattenFrom true text
      else chr '_' :: flattenFrom true text

def flatten (text : Octets) : Octets := flattenFrom false text

/-- `source.path || source.name`. -/
def Source.place (s : Source) : Octets := if s.path = [] then s.name else s.path

def draftKey (s : Source) : Octets :=
  if s.external then octets "ext_" ++ flatten s.place else s.name

/-- `filepath.Base(strings.TrimSpace(name))`: the file `SafeMibPath` and `draftPath` mean. -/
def cleanName (paths : Paths) (name : Octets) : Octets := base paths (trimSpace name)

/-- The name `draftPath` files a draft under, without its extension. -/
def draftPath (paths : Paths) (name : Octets) : Option Octets :=
  if cleanName paths name = [] ∨ cleanName paths name = octets "." then none
  else some (cleanName paths name)

def fileOf (paths : Paths) (s : Source) : File :=
  if s.external then .external s.place else .mib (cleanName paths s.name)

/-- Where the draft of a file is. -/
def File.draft (paths : Paths) : File → Option Octets
  | .mib name => if name = [] ∨ name = octets "." then none else some name
  | .external path => draftPath paths (octets "ext_" ++ flatten path)

theorem draftPath_draftKey (paths : Paths) (s : Source) :
    draftPath paths (draftKey s) = (fileOf paths s).draft paths := by
  unfold draftKey fileOf
  split <;> rfl

/-! ## The store -/

/-- Where a call of `open` is. -/
inductive Opening where
  | flushing (name : Octets)
  | reading (name : Octets) (token : Nat)
  /-- The file has been read, and the draft, empty if there is none. -/
  | drafting (name : Octets) (token : Nat) (source : Source) (draft : Octets)

/-- A call of `MibEditorSave`, for the file that was open. -/
structure Saving where
  file : File
  name : Octets
  written : Octets

structure Editor where
  source : Option Source := none
  buffer : Octets := []
  /-- The key of the timer that runs. -/
  timer : Option Octets := none
  /-- `draftTimer` is not null: a timer was set since the last flush. -/
  draftTimer : Bool := false
  openToken : Nat := 0
  /-- The drafts, under the names they are filed. -/
  drafts : Octets → Option Octets
  opens : Nat → Option Opening := fun _ => none
  saves : Nat → Option Saving := fun _ => none
  /-- What was typed in a file and is neither saved, reverted, undone nor discarded. -/
  owed : File → Option Octets := fun _ => none
  /-- The files that have been open. -/
  known : List File := []
  /-- What has been read from a file or saved to it. -/
  contents : List (File × Octets) := []
  /-- The drafts that were written, and the file whose text they were given. -/
  received : List (Octets × File) := []

namespace Editor

variable (paths : Paths)

def isDirty (s : Editor) (source : Source) : Bool := s.buffer != source.content

/-- `MibEditorSaveDraft`. -/
def saveDraft (s : Editor) (source : Source) : Editor :=
  match draftPath paths (draftKey source) with
  | none => s
  | some place =>
      { s with
        drafts := fun p => if p = place then some s.buffer else s.drafts p
        received := (place, fileOf paths source) :: s.received }

/-- `MibEditorDiscardDraft`. -/
def dropDraft (s : Editor) (name : Octets) : Editor :=
  match draftPath paths name with
  | none => s
  | some place => { s with drafts := fun p => if p = place then none else s.drafts p }

/-- What a timer and a flush do with the draft of the file that is open. -/
def settleDraft (s : Editor) (source : Source) : Editor :=
  if s.isDirty source then s.saveDraft paths source else s.dropDraft paths (draftKey source)

def flushDraft (s : Editor) : Editor :=
  if s.draftTimer = false then s
  else match s.source with
    | none => { s with timer := none, draftTimer := false }
    | some source => { s.settleDraft paths source with timer := none, draftTimer := false }

/-- The timer runs out. -/
def fire (s : Editor) (key : Octets) : Editor :=
  match s.source with
  | none => { s with timer := none }
  | some source =>
      -- "that file's draft was already settled when it was closed"
      if draftKey source ≠ key then { s with timer := none }
      else { s.settleDraft paths source with timer := none }

def scheduleDraft (s : Editor) : Editor :=
  match s.source with
  | none => { s with timer := none }
  | some source => { s with timer := some (draftKey source), draftTimer := true }

def discardDraft (s : Editor) (name : Octets) : Editor :=
  if name = [] then { s with timer := none } else { s.dropDraft paths name with timer := none }

/-- What is owed to a file. -/
def owes (s : Editor) (file : File) (text : Option Octets) : Editor :=
  { s with owed := fun f => if f = file then text else s.owed f }

/-- Nothing is owed to the file that is open. -/
def settled (s : Editor) : Editor :=
  match s.source with
  | none => s
  | some source => s.owes (fileOf paths source) none

def setBuffer (s : Editor) (buffer : Octets) : Editor :=
  match s.source with
  | none => { s with buffer }.scheduleDraft
  | some source =>
      ({ s with buffer }.scheduleDraft).owes (fileOf paths source)
        (if buffer = source.content then none else some buffer)

/-- A call of `open` is over. -/
def closes (s : Editor) (i : Nat) : Editor :=
  { s with opens := fun j => if j = i then none else s.opens j }

def moves (s : Editor) (i : Nat) (o : Opening) : Editor :=
  { s with opens := fun j => if j = i then some o else s.opens j }

/-- A file is on the screen. -/
def shows (s : Editor) (source : Source) (buffer : Octets) (owed : Option Octets) : Editor :=
  { s.owes (fileOf paths source) owed with
    source := some source
    buffer
    known := fileOf paths source :: s.known }

/-- The buffer a file is opened with. -/
def recovered (source : Source) (draft : Octets) : Octets :=
  if draft ≠ [] ∧ draft ≠ source.content then draft else source.content

/-- What is owed to a file when its text is this. -/
def owedBut (s : Editor) (file : File) (content : Octets) : Option Octets :=
  if s.owed file = some content then none else s.owed file

/-- `openSource`, over the changes of the file that the user gives up or not. -/
def openSource (s : Editor) (source : Source) (restored : Bool) : Editor :=
  ({ s with
      openToken := s.openToken + 1
      contents := (fileOf paths source, source.content) :: s.contents }.shows paths source
    source.content
    (if restored then none else s.owedBut (fileOf paths source) source.content)).discardDraft paths
      (draftKey source)

/-- The file `source` becomes that was saved under its name. -/
def named (source : Source) (content : Octets) : Source := { source with content, external := false }

/-- `markSaved`, with what was written. -/
def markSaved (s : Editor) (written : Octets) : Editor :=
  match s.source with
  | none => { s with source := some { name := [], path := [], content := written, external := false } }
  | some source =>
      -- the file has what was written, and what was typed since goes with the name
      let other := s.owes (fileOf paths source) none
      let saved := other.shows paths (named source written) s.buffer
        ((other.owed (fileOf paths (named source written))).or
          (if s.buffer = written then none else s.owed (fileOf paths source)))
      if s.buffer = written then saved.dropDraft paths (draftKey source) else saved

def revert (s : Editor) : Editor :=
  match s.source with
  | none => s.discardDraft paths []
  | some source =>
      ({ s with buffer := source.content }.discardDraft paths (draftKey source)).owes
        (fileOf paths source) none

/-- The draft of a file. -/
def draftOf (s : Editor) (file : File) : Option Octets := (file.draft paths).bind s.drafts

end Editor

/-! ## The steps -/

inductive Act where
  | setBuffer (buffer : Octets)
  /-- A call of `open`, up to the write of the pending draft. -/
  | open (i : Nat) (name : Octets)
  /-- That write is answered, and the call takes its token. -/
  | flushed (i : Nat)
  /-- The file arrives, and its draft is read. -/
  | read (i : Nat) (source : Source) (fails : Bool)
  | readFails (i : Nat)
  /-- The draft arrives. -/
  | opened (i : Nat)
  /-- A source the caller already has; `restored` if it is the bundled one, which the user asked
  for in place of the file. -/
  | openSource (source : Source) (restored : Bool)
  | save (i : Nat)
  /-- A save is answered, and `markSaved` called. -/
  | saved (i : Nat)
  | saveFails (i : Nat)
  | draftTimer
  | revert
  | flushDraft
  /-- The user throws the changes away, and the panel discards a draft. -/
  | discardDraft (name : Octets)

namespace Editor

variable (paths : Paths)

def step (s : Editor) : Act → Option Editor
  | .setBuffer buffer => some (s.setBuffer paths buffer)
  | .open i name =>
      match s.opens i with
      | none => some ((s.flushDraft paths).moves i (.flushing name))
      | some _ => none
  | .flushed i =>
      match s.opens i with
      | some (.flushing name) =>
          some ({ s with openToken := s.openToken + 1 }.moves i (.reading name (s.openToken + 1)))
      | _ => none
  | .read i source fails =>
      match s.opens i with
      | some (.reading name token) =>
          if source.external = true ∨ source.name ≠ base paths name then none
          else
            let s := { s with contents := (fileOf paths source, source.content) :: s.contents }
            if token ≠ s.openToken then some (s.closes i)
            else some (s.moves i (.drafting name token source
              (if fails then [] else ((draftPath paths name).bind s.drafts).getD [])))
      | _ => none
  | .readFails i =>
      match s.opens i with
      | some (.reading _ _) => some (s.closes i)
      | _ => none
  | .opened i =>
      match s.opens i with
      | some (.drafting _ token source draft) =>
          if token ≠ s.openToken then some (s.closes i)
          else some ((s.closes i).shows paths source (recovered source draft)
            (s.owedBut (fileOf paths source) source.content))
      | _ => none
  | .openSource source restored => some (s.openSource paths source restored)
  | .save i =>
      match s.saves i, s.source with
      | none, some source => some { s with
          saves := fun j => if j = i then
            some { file := fileOf paths source, name := source.name, written := s.buffer }
            else s.saves j }
      | _, _ => none
  | .saved i =>
      match s.saves i with
      | some saving => some ({ s with
          saves := fun j => if j = i then none else s.saves j
          contents := (.mib (cleanName paths saving.name), saving.written) :: s.contents }.markSaved
            paths saving.written)
      | none => none
  | .saveFails i =>
      match s.saves i with
      | some _ => some { s with saves := fun j => if j = i then none else s.saves j }
      | none => none
  | .draftTimer =>
      match s.timer with
      | some key => some (s.fire paths key)
      | none => none
  | .revert => some (s.revert paths)
  | .flushDraft => some (s.flushDraft paths)
  | .discardDraft name => some ((s.discardDraft paths name).settled paths)

/-! ## When a step loses nothing -/

/-- The file that is open can be left: no timer was set since the last flush, or there is nothing
to write, or the draft has been written. -/
def Leaves (s : Editor) : Prop :=
  ∀ source ∈ s.source, s.draftTimer = false ∨ s.buffer = source.content ∨
    s.draftOf paths (fileOf paths source) = some s.buffer

/-- The draft of a file has a place, which is that of no other file. -/
def Apart (s : Editor) (file : File) : Prop :=
  file.draft paths ≠ none ∧ ∀ other ∈ s.known, other.draft paths = file.draft paths → other = file

/-- A step that loses nothing: `open` ends when nothing was typed since its flush, with the draft as
it still is; a source is opened from outside that has no draft, or over the changes the user gives
up; a save is answered while its file is open; and it is the draft of the file that is open which is
discarded. -/
def Careful (s : Editor) : Act → Prop
  | .opened i =>
      match s.opens i with
      | some (.drafting name token source draft) => token = s.openToken →
          s.Leaves paths ∧ s.Apart paths (fileOf paths source) ∧
          draftPath paths name = (fileOf paths source).draft paths ∧
          ∀ kept ∈ s.draftOf paths (fileOf paths source), kept = draft ∧ kept ≠ []
      | _ => True
  | .openSource source restored =>
      ((restored = true ∧ s.source.map (fileOf paths) = some (fileOf paths source)) ∨
        s.Leaves paths) ∧
      s.Apart paths (fileOf paths source) ∧
      (restored = true ∨
        ∀ kept ∈ s.draftOf paths (fileOf paths source), kept = source.content)
  | .saved i => ∀ saving ∈ s.saves i, ∃ source ∈ s.source,
      cleanName paths source.name = cleanName paths saving.name ∧
      (source.external = true → fileOf paths source = saving.file ∧
        s.Apart paths (.mib (cleanName paths source.name)) ∧
        s.draftOf paths (.mib (cleanName paths source.name)) = none ∧
        (s.buffer = saving.written ∨ s.draftTimer = true))
  | .discardDraft name => ∀ place ∈ draftPath paths name, s.drafts place = none ∨
      (s.source.bind fun source => (fileOf paths source).draft paths) = some place
  | _ => True

instance (s : Editor) : Decidable (s.Leaves paths) :=
  inferInstanceAs (Decidable (∀ source ∈ s.source, s.draftTimer = false ∨
    s.buffer = source.content ∨ s.draftOf paths (fileOf paths source) = some s.buffer))

instance (s : Editor) (file : File) : Decidable (s.Apart paths file) :=
  inferInstanceAs (Decidable (file.draft paths ≠ none ∧
    ∀ other ∈ s.known, other.draft paths = file.draft paths → other = file))

instance (s : Editor) : (a : Act) → Decidable (s.Careful paths a)
  | .opened i =>
      match h : s.opens i with
      | some (.drafting name token source draft) => decidable_of_iff
          (token = s.openToken → s.Leaves paths ∧ s.Apart paths (fileOf paths source) ∧
            draftPath paths name = (fileOf paths source).draft paths ∧
            ∀ kept ∈ s.draftOf paths (fileOf paths source), kept = draft ∧ kept ≠ [])
          (by rw [Careful, h])
      | some (.flushing _) => .isTrue (by rw [Careful, h]; trivial)
      | some (.reading _ _) => .isTrue (by rw [Careful, h]; trivial)
      | none => .isTrue (by rw [Careful, h]; trivial)
  | .openSource source restored => inferInstanceAs (Decidable
      (((restored = true ∧ s.source.map (fileOf paths) = some (fileOf paths source)) ∨
          s.Leaves paths) ∧
        s.Apart paths (fileOf paths source) ∧
        (restored = true ∨
          ∀ kept ∈ s.draftOf paths (fileOf paths source), kept = source.content)))
  | .saved i => inferInstanceAs (Decidable (∀ saving ∈ s.saves i, ∃ source ∈ s.source,
      cleanName paths source.name = cleanName paths saving.name ∧
      (source.external = true → fileOf paths source = saving.file ∧
        s.Apart paths (.mib (cleanName paths source.name)) ∧
        s.draftOf paths (.mib (cleanName paths source.name)) = none ∧
        (s.buffer = saving.written ∨ s.draftTimer = true))))
  | .discardDraft name => inferInstanceAs (Decidable (∀ place ∈ draftPath paths name,
      s.drafts place = none ∨
        (s.source.bind fun source => (fileOf paths source).draft paths) = some place))
  | .setBuffer _ | .open .. | .flushed _ | .read .. | .readFails _ | .save _ | .saveFails _
  | .draftTimer | .revert | .flushDraft => .isTrue trivial

/-- **Nothing typed is lost**: it is in the buffer of its file or in its draft; no draft was given
the text of another file; and the content of the file that is open was read from it or saved to
it. -/
structure Safe (s : Editor) : Prop where
  typed : ∀ file text, s.owed file = some text →
    (s.source.map (fileOf paths) = some file ∧ s.buffer = text) ∨ s.draftOf paths file = some text
  drafts : ∀ r ∈ s.received, ∀ file ∈ s.known, file.draft paths = some r.1 → file = r.2
  content : ∀ source, s.source = some source →
    (fileOf paths source, source.content) ∈ s.contents

end Editor

end SnmpLens.MibEditor
