import Mathlib.Data.List.Sort
import SnmpLens.Mib.Source

/-!
# The import-cycle guard

`cycle.go`, and the loads of `service.go` and `reload.go` that it guards. gosmi does not return
from loading a module whose imports come back to it, so the files that are found to be on a
cycle are refused before it is asked.

The recursions are given fuel: `scan` a step for each file there is, `walk` one for each module.
What a load makes of a module that has been loaded, the tree, is left out.
-/

namespace SnmpLens.Mib

open Utf8 Strings

/-! ## The scan -/

/-- A module that has been scanned: the file it is in, and what it imports. -/
structure Scanned where
  module : Octets
  file : Octets
  imports : List Octets

/-- `fileOf` and `importsOf`, which have the same keys. -/
abbrev Scans := List Scanned

def Scans.seen (s : Scans) (module : Octets) : Bool := s.any fun e => e.module == module

namespace Directory

def scan (d : Directory) : Nat → Octets → Scans → Scans
  | 0, _, s => s
  | fuel + 1, file, s =>
      match d.scanned file with
      | none => s
      | some (module, imports) =>
          if s.seen module then s
          else
            -- follow, so a cycle two hops outside the requested set is still found
            imports.foldl
              (fun s dep =>
                if s.seen dep then s
                else
                  match d.fileForModule dep with
                  | some depFile => d.scan fuel depFile s
                  | none => s)
              (s ++ [⟨module, file, imports⟩])

/-- All that is scanned from the given files on. -/
def scanAll (d : Directory) (fileNames : List Octets) : Scans :=
  fileNames.foldl (fun s f => d.scan (d.files.length + 2) f s) []

end Directory

/-! ## The search -/

/-- What a module imports. -/
abbrev Graph := List (Octets × List Octets)

namespace Graph

def imports (g : Graph) (node : Octets) : List Octets :=
  ((g.find? fun e => e.1 == node).map Prod.snd).getD []

def known (g : Graph) (node : Octets) : Bool := g.any fun e => e.1 == node

end Graph

inductive Colour where
  /-- Not visited. -/
  | white
  /-- On the current path. -/
  | grey
  /-- Finished. -/
  | black
  deriving DecidableEq

/-- How far a search has come. -/
structure Walk where
  colour : Octets → Colour := fun _ => .white
  stack : List Octets := []
  found : List (List Octets) := []
  seen : List Octets := []

/-- `sort.Strings`. -/
def sorted (names : List Octets) : List Octets := names.insertionSort (· ≤ ·)

/-- What a loop is known by. -/
def loopKey (loop : List Octets) : Octets := [chr '|'].intercalate (sorted loop)

namespace Walk

def paint (node : Octets) (c : Colour) (s : Walk) : Walk :=
  { s with colour := fun x => if x = node then c else s.colour x }

/-- A back edge: the loop is the stack from `next` onwards. -/
def close (next : Octets) (s : Walk) : Walk :=
  let at_ := (s.stack.findIdx? (· == next)).getD 0
  let loop := s.stack.drop at_ ++ [next]
  if s.seen.contains (loopKey loop) then s
  else { s with seen := loopKey loop :: s.seen, found := s.found ++ [loop] }

/-- An edge to `next`: what is not visited is walked. -/
def visit (g : Graph) (enter : Octets → Walk → Walk) (s : Walk) (next : Octets) : Walk :=
  match s.colour next with
  | .white => if g.known next then enter next s else s
  | .grey => s.close next
  | .black => s

end Walk

def walk (g : Graph) : Nat → Octets → Walk → Walk
  | 0, _, s => s
  | fuel + 1, node, s =>
      let s := { s.paint node .grey with stack := s.stack ++ [node] }
      let s := (g.imports node).foldl (Walk.visit g (walk g fuel)) s
      { s.paint node .black with stack := s.stack.dropLast }

def cyclesIn (g : Graph) : List (List Octets) :=
  ((sorted (g.map Prod.fst)).foldl
    (fun s node => if s.colour node = .white then walk g g.length node s else s) {}).found

/-! ## The guard -/

namespace Directory

/-- The graph of what has been scanned. -/
def graphOf (s : Scans) : Graph := s.map fun e => (e.module, e.imports)

/-- A module of a cycle: its file is noted, unless it is already. -/
def note (s : Scans) (cycle : List Octets) (out : List (Octets × List Octets)) (module : Octets) :
    List (Octets × List Octets) :=
  match s.find? fun e => e.module == module with
  | some e => if out.any (·.1 == e.file) then out else out ++ [(e.file, cycle)]
  | none => out

/-- The files that are in a cycle, each with the first that is found. -/
def findImportCycles (d : Directory) (fileNames : List Octets) : List (Octets × List Octets) :=
  let s := d.scanAll fileNames
  (cyclesIn (graphOf s)).foldl (fun out cycle => cycle.foldl (note s cycle) out) []

/-- What a load says of a file. -/
structure MibLoadResult where
  fileName : Octets
  success : Bool
  error : Octets := []
  moduleName : Octets := []

def cycleDiagnostic (fileName : Octets) (cycle : List Octets) : MibLoadResult where
  fileName := fileName
  success := false
  error := octets "refused: its IMPORTS form a cycle (" ++ (octets " -> ").intercalate cycle
    ++ octets "). SMI modules cannot import each other, and loading one would not return."

/-- gosmi: the module a file is loaded as, or what the diagnosis of the failure says. -/
structure Gosmi where
  loadModule : Octets → Except Octets Octets

structure Loading where
  /-- What gosmi has been asked to load. -/
  asked : List Octets := []
  diagnostics : List MibLoadResult := []
  loadedModuleNames : List Octets := []

/-- One turn of the loop of `loadWithDiagnosticsLocked`. -/
def loadFile (gosmi : Gosmi) (cycles : List (Octets × List Octets)) (s : Loading) (fileName : Octets) :
    Loading :=
  match cycles.find? fun c => c.1 == fileName with
  | some (_, cycle) => { s with diagnostics := s.diagnostics ++ [cycleDiagnostic fileName cycle] }
  | none =>
      let s := { s with asked := s.asked ++ [fileName] }
      match gosmi.loadModule fileName with
      | .error summary =>
          { s with diagnostics := s.diagnostics ++
              [{ fileName := fileName, success := false, error := summary }] }
      | .ok moduleName =>
          { s with
            diagnostics := s.diagnostics ++
              [{ fileName := fileName, success := true, moduleName := moduleName }]
            loadedModuleNames := s.loadedModuleNames ++ [moduleName] }

def loadWithDiagnostics (d : Directory) (gosmi : Gosmi) (fileNames : List Octets) : Loading :=
  fileNames.foldl (loadFile gosmi (d.findImportCycles fileNames)) {}

/-- The modules `Rebuild` loads first. -/
def coreModules : List Octets := [octets "SNMPv2-SMI", octets "SNMPv2-TC"]

structure Rebuilding where
  /-- The modules gosmi has been asked for first. -/
  core : List Octets
  /-- And what has been loaded after them. -/
  loading : Loading
  diagnostics : List MibLoadResult

/-- `Rebuild`: the core modules, and then the files. -/
def rebuild (d : Directory) (gosmi : Gosmi) (fileNames : List Octets) : Rebuilding :=
  let failed := coreModules.filterMap fun core =>
    match gosmi.loadModule core with
    | .error err => some
        { fileName := core, success := false, error := octets "core module failed to load: " ++ err }
    | .ok _ => none
  let resp := d.loadWithDiagnostics gosmi fileNames
  { core := coreModules, loading := resp, diagnostics := failed ++ resp.diagnostics }

end Directory

end SnmpLens.Mib
