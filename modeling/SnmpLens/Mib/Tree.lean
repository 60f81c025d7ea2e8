import Mathlib.Data.List.Sort
import Mathlib.Logic.Function.Basic
import SnmpLens.Lib.Forest
import SnmpLens.Lib.Prefix
import SnmpLens.Poll.WriteBack

/-!
# The MIB tree

`buildTree` in `pkg/mib/service.go`. The nodes of the loaded modules are put into a map by
the text of their OID, the first with an OID staying; a first pass over the map hangs every
node under the one whose text is its own up to the last dot, a second one collects those
that were hung nowhere, and the children of every node and the roots are sorted. A map is
ranged over in any order, and not in the same one twice.
-/

namespace SnmpLens.Mib

open Utf8 Strings Forest

/-- The type of a node, as gosmi has it. -/
structure LoadedType where
  name : Octets
  units : Octets
  enumValues : Option (List (Octets × Int64))

/-- A node of a module, as gosmi has it; `kind`, `access` and `status` are what they print. -/
structure LoadedNode where
  name : Octets
  oid : Option (List UInt32)
  description : Octets
  kind : Octets
  access : Octets
  status : Octets
  type : Option LoadedType

/-- What the tree asks of gosmi: the nodes of a module, and how an OID prints. -/
structure Modules where
  getModule : Octets → Option (List LoadedNode)
  oidString : List UInt32 → Octets

/-- `Node`, without its children. -/
structure Node where
  name : Octets
  oid : Octets
  description : Octets
  mibType : Octets
  syntaxName : Octets := []
  access : Octets
  enumValues : Option (List (Octets × Int64)) := none
  status : Octets := []
  units : Octets := []
  parent : Octets := []
  deriving DecidableEq

/-- An entry of a map of numbers by name, put in place of an earlier one. -/
def putEnum (m : List (Octets × Int64)) (v : Octets × Int64) : List (Octets × Int64) :=
  m.filter (·.1 != v.1) ++ [v]

def newNode (node : LoadedNode) (oidStr : Octets) : Node where
  name := node.name
  oid := oidStr
  description := node.description
  mibType := node.kind
  access := node.access
  status := if node.status ≠ [] ∧ node.status ≠ octets "Unknown" then node.status else []
  syntaxName := node.type.elim [] LoadedType.name
  units := node.type.elim [] LoadedType.units
  enumValues := node.type.bind fun t => t.enumValues.bind fun values =>
    if 0 < values.length then some (values.foldl putEnum []) else none

/-- What a module has to say of a node, unless it has no OID. -/
def entryOf (gosmi : Modules) (node : LoadedNode) : Option Node :=
  node.oid.bind fun oid =>
    let oidStr := gosmi.oidString oid
    if oidStr = [] then none else some (newNode node oidStr)

/-- The first node with an OID stays in the map. -/
def addNode (nodeMap : List Node) (n : Node) : List Node :=
  if nodeMap.any (·.oid == n.oid) then nodeMap else nodeMap ++ [n]

/-- `nodeMap`, in the order its entries were made. -/
def nodeMapOf (gosmi : Modules) (loadedModuleNames : List Octets) : List Node :=
  loadedModuleNames.foldl (fun m moduleName =>
    match gosmi.getModule moduleName with
    | none => m
    | some nodes => nodes.foldl (fun m node => (entryOf gosmi node).elim m (addNode m)) m) []

/-! ## Links -/

/-- `strings.LastIndex` of one octet. -/
def lastIndex (b : UInt8) (s : Octets) : Option Nat :=
  (s.reverse.idxOf? b).map fun i => s.length - 1 - i

/-- `parentOidStr`, where there is a dot. -/
def parentOid (oidStr : Octets) : Option Octets := (lastIndex 46 oidStr).map fun i => oidStr.take i

/-- The entry of the map a node is hung under. -/
def parentNode (nodeMap : List Node) (oidStr : Octets) : Option Node :=
  (parentOid oidStr).bind fun p => nodeMap.find? (·.oid == p)

/-- What the first pass writes: the children of a node, the name of its parent, and whether it is a
child, each by the node's OID. -/
structure Links where
  children : Octets → List Octets
  parent : Octets → Octets
  isChild : Octets → Bool

def noLinks : Links where
  children _ := []
  parent _ := []
  isChild _ := false

/-- A step of the first pass. -/
def linkNode (nodeMap : List Node) (l : Links) (mibNode : Node) : Links :=
  match parentNode nodeMap mibNode.oid with
  | none => l
  | some parent =>
      { children := Function.update l.children parent.oid (l.children parent.oid ++ [mibNode.oid])
        parent := Function.update l.parent mibNode.oid parent.name
        isChild := Function.update l.isChild mibNode.oid true }

/-! ## Order -/

/-- `strconv.Atoi`, of an `int` of 64 bits. -/
def atoi (s : Octets) : Option Int := Poll.parseInt 64 s

def lessParts : List Octets → List Octets → Bool
  | part1 :: parts1, part2 :: parts2 =>
      match atoi part1, atoi part2 with
      | some num1, some num2 => if num1 ≠ num2 then num1 < num2 else lessParts parts1 parts2
      | _, _ => part1 < part2
  | [], _ :: _ => true
  | _, [] => false

def isOidLess (oid1 oid2 : Octets) : Bool := lessParts (oid1.splitOn 46) (oid2.splitOn 46)

/-- `sort.Slice`, by OID. -/
def sortSlice {α : Type} (oid : α → Octets) (xs : List α) : List α :=
  xs.insertionSort fun a b => !isOidLess (oid b) (oid a)

mutual

/-- `sortNodes`. The source sorts the children before what is below them; the one does not touch
what the other sorts by. -/
def sortNodes : Rose Node → Rose Node
  | .node n ts => .node n (sortSlice (·.value.oid) (sortChildren ts))

def sortChildren : List (Rose Node) → List (Rose Node)
  | [] => []
  | t :: ts => sortNodes t :: sortChildren ts

end

/-- No node is further down than its OID is long. -/
def depth (nodes : List Node) : Nat := nodes.foldr (fun n d => max n.oid.length d) 0

/-- `buildTree`; `range₁` and `range₂` are the orders the two passes find the map in. -/
def buildTree (gosmi : Modules) (range₁ range₂ : List Node → List Node)
    (loadedModuleNames : List Octets) : List (Rose Node) :=
  let nodeMap := nodeMapOf gosmi loadedModuleNames
  let links := (range₁ nodeMap).foldl (linkNode nodeMap) noLinks
  let nodes := nodeMap.map fun n => { n with parent := links.parent n.oid }
  let children (n : Node) := (links.children n.oid).filterMap fun oid => nodes.find? (·.oid == oid)
  let rootNodes := (range₂ nodes).filter fun n => !links.isChild n.oid
  sortSlice (·.value.oid) (rootNodes.map fun root => sortNodes (grow children (depth nodes) root))

end SnmpLens.Mib
