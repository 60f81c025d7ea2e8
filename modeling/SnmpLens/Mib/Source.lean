import SnmpLens.Lib.Filepath
import SnmpLens.Lib.Fold
import SnmpLens.Lib.Strings
import SnmpLens.Lib.Substring

/-!
# MIB files

The directory the MIBs are in, and what is read of a file without parsing it: the module it
declares and the modules its `IMPORTS` clause names, as `pkg/mib/cycle.go` and `diagnose.go`
look for them in its text.

`Library` is what nothing below looks into: upper and lower case beyond ASCII, and how the
system writes paths. A directory that cannot be read is an empty one.
-/

namespace SnmpLens.Mib

open Utf8 Strings

structure Library where
  /-- `strings.ToUpper`. -/
  toUpper : Octets → Octets
  /-- `strings.ToLower`. -/
  toLower : Octets → Octets
  /-- `strings.EqualFold`. -/
  equalFold : Octets → Octets → Bool
  paths : Filepath.Paths

/-- The files of the MIB directory, with what is in them. -/
structure Directory where
  lib : Library
  files : List (Octets × Octets)

/-! ## Text -/

/-- `strings.Index`. -/
def index (word s : Octets) : Option Nat :=
  let (before, _, found) := cut word s
  if found then some before.length else none

/-- A text with a line feed behind each of its lines. -/
def normaliseSource (raw : Octets) : Octets :=
  let bom : Octets := [0xef, 0xbb, 0xbf]
  let s := if bom.isPrefixOf raw then raw.drop bom.length else raw
  if (index (octets "\r\n") s).isSome then Substring.replaceAll (octets "\r\n") (octets "\n") s
  else if s.contains (chr '\r') then Substring.replaceAll (octets "\r") (octets "\n") s
  else s

def stripComment (line : Octets) : Octets :=
  match index (octets "--") line with
  | some i => line.take i
  | none => line

/-- The loop of `moduleNameOf`. -/
def nameInLines (lib : Library) : List Octets → Octets
  | [] => []
  | line :: rest =>
      let line := trimSpace (stripComment line)
      if line = [] then nameInLines lib rest
      else
        match index (octets "DEFINITIONS") (lib.toUpper line) with
        | none | some 0 => nameInLines lib rest
        | some i =>
            match fields (trimSpace (line.take i)) with
            | [name] => name
            | _ => []

/-- The module a text declares. -/
def moduleNameOf (lib : Library) (content : Octets) : Octets :=
  nameInLines lib (content.splitOn (chr '\n'))

/-- The name behind a `FROM`. -/
def importsAmong : List Octets → List Octets
  | word :: name :: rest =>
      let name' := (name.dropWhile (· == chr ',')).rdropWhile (· == chr ',')
      if Fold.equalFold word (octets "FROM") && name' ≠ [] then name' :: importsAmong (name :: rest)
      else importsAmong (name :: rest)
  | _ => []

def importScanLimit : Nat := 64 * 1024

/-- The modules the clause names, each once. -/
def clauseOf (lib : Library) (content : Octets) : List Octets :=
  match index (octets "IMPORTS") (lib.toUpper content) with
  | none => []
  | some start =>
      let clause := (cut [chr ';'] (content.drop (start + (octets "IMPORTS").length))).1
      let lines := (clause.splitOn (chr '\n')).map stripComment
      (importsAmong (fields ([chr ' '].intercalate lines))).foldl
        (fun seen name => if seen.contains name then seen else seen ++ [name]) []

/-! ## Files -/

namespace Directory

/-- Whether a name is an editor's leavings. -/
def isTransient (d : Directory) (name : Octets) : Bool :=
  let lower := d.lib.toLower name
  (octets "~").isSuffixOf lower ||
    [".tmp", ".bak", ".old", ".orig", ".swp", ".save"].any fun s => (octets s).isSuffixOf lower

def listMibFiles (d : Directory) : List Octets :=
  (d.files.map Prod.fst).filter fun name =>
    name.head? ≠ some (chr '.') && name ≠ octets "README" && name ≠ octets "LICENSE" &&
      !d.isTransient name

/-- The name of the file in the directory that is meant. -/
def safeMibPath (d : Directory) (name : Octets) : Option Octets :=
  let clean := Filepath.base d.lib.paths (trimSpace name)
  if clean = [] || clean = octets "." || clean = [d.lib.paths.separator] then none else some clean

/-- What is in a file, as far as `limit`; nothing when it cannot be opened. -/
def head (d : Directory) (limit : Nat) (path : Octets) : Octets :=
  ((d.files.find? fun f => f.1 == path).map fun f => f.2.take limit).getD []

def declaredModuleName (d : Directory) (path : Octets) : Octets :=
  moduleNameOf d.lib (normaliseSource (d.head 8192 path))

def readImports (d : Directory) (path : Octets) : Octets × List Octets :=
  let content := normaliseSource (d.head importScanLimit path)
  (moduleNameOf d.lib content, clauseOf d.lib content)

/-- The file name without its extension. -/
def moduleBase (d : Directory) (fileName : Octets) : Octets :=
  let base := Filepath.base d.lib.paths fileName
  match index (octets ".") base with
  | none | some 0 => base
  | some i => base.take i

/-- The file that declares a module, by name then by content. -/
def fileForModule (d : Directory) (module : Octets) : Option Octets :=
  let files := d.listMibFiles
  match files.find? fun f => d.lib.equalFold (d.moduleBase f) module with
  | some f => some f
  | none =>
      files.find? fun f =>
        match d.safeMibPath f with
        | none => false
        | some path => d.lib.toUpper (d.declaredModuleName path) = d.lib.toUpper module

/-- The module a file stands for and the modules it imports; a file that declares none stands for
the one it is named after. -/
def scanned (d : Directory) (file : Octets) : Option (Octets × List Octets) :=
  match d.safeMibPath file with
  | none => none
  | some path =>
      let (module, imports) := d.readImports path
      let module := if module = [] then d.moduleBase file else module
      if module = [] then none else some (module, imports)

end Directory

end SnmpLens.Mib
