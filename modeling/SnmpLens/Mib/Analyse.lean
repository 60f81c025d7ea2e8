import SnmpLens.Mib.Symbols

/-!
# The analysis of a MIB

`pkg/mib/analyse.go`: what can be decided from the parse of a text and the loaded tree, each
problem where it stands. The checks that go over the tree do two things in turn, they report and
they mark an import as used; what they do is the list of these, in the order of the source, and
the check of unused imports comes last and reads the marks.
-/

namespace SnmpLens.Mib

open Utf8 Strings

/-! ## Diagnostics -/

inductive Severity where
  | error
  | warning
  | info
deriving DecidableEq, Repr

/-- The codes of the semantic pass. -/
inductive Code where
  | unknownType
  | duplicateOid
  | unknownParent
  | unusedImport
  | unknownModule
  | noDescription
  | indexUndefined
  | rowAccess
deriving DecidableEq, Repr

structure Diagnostic where
  pos : LexerPos
  severity : Severity
  code : Code
  message : Octets
  symbol : Octets
deriving DecidableEq, Repr

/-- `a.add`, and `use.used = true` for the import of a name, if there is one. -/
inductive Effect where
  | add (d : Diagnostic)
  | use (name : Octets)
deriving DecidableEq, Repr

structure ImportUse where
  module : Octets
  pos : LexerPos
deriving DecidableEq, Repr

/-- What the checks read; `quote` is `%q`. -/
structure Analysis where
  module : Ast.Module
  cat : Catalogue
  rawSource : Octets
  quote : Octets → Octets

namespace Analysis

variable (a : Analysis)

/-! ## What `collect` gathers -/

/-- `a.known`: every name defined or imported. -/
def known (name : Octets) : Bool :=
  a.module.body.importedNames.contains name || a.module.body.definedNames.contains name

/-- `a.types`: the names a `SYNTAX` may have. -/
def types (name : Octets) : Bool :=
  a.module.body.importedNames.contains name ||
    (a.module.body.types.map Ast.TypeDef.name).contains name ||
    (a.module.body.nodes.map Ast.Node.name).contains name

/-- `a.imports`: the last `FROM` that has the name. -/
def imports (name : Octets) : Option ImportUse :=
  (a.module.body.imports.reverse.find? fun imp => imp.names.contains name).map fun imp =>
    ⟨imp.module, imp.pos⟩

/-- One part of a key; a number is what counts where there is one. -/
def keyPart (sub : Ast.SubIdentifier) : Option Octets :=
  match sub.number, sub.name with
  | some n, _ => some (formatUint n)
  | none, some name => some name
  | none, none => none

/-- An OID assignment as a comparable string. -/
def oidKey (oid : Option Ast.Oid) : Octets :=
  match oid with
  | none => []
  | some oid => [chr '.'].intercalate (oid.subIdentifiers.filterMap keyPart)

/-- `a.byOid`: the nodes with a key, in the order of the text. -/
def byOid (key : Octets) : List Ast.Node :=
  a.module.body.nodes.filter fun n => oidKey n.oid == key

def inCatalogue (name : Octets) : Bool := a.cat.defined name

/-! ## The checks -/

def checkImportedModules : List Effect :=
  if a.cat.modules = [] then []
  else
    a.module.body.imports.filterMap fun imp =>
      if a.cat.modules.contains imp.module || imp.module == a.module.name then none
      else
        some (.add
          { pos := imp.pos, severity := .error, code := .unknownModule,
            message := octets "module " ++ a.quote imp.module ++ octets " is not loaded; add " ++
              octets "its MIB file to SnmpLens or this module will never resolve",
            symbol := imp.module })

def isBuiltinSyntax (name : Octets) : Bool :=
  ["OCTET STRING", "OBJECT IDENTIFIER", "INTEGER", "BITS", "NULL"].any fun s => octets s == name

/-- A type that is named, by a node or by another type. -/
def useType (name : Octets) (pos : LexerPos) (node : Option Ast.Node) : List Effect :=
  if name = [] then []
  else
    .use name ::
      if a.types name || baseTypes.contains name || isBuiltinSyntax name || a.inCatalogue name then
        []
      else
        let message :=
          match node with
          | none =>
              a.quote name ++
                octets " is not a known type; it is neither defined here, imported, nor a base type"
          | some n =>
              a.quote name ++ octets " is not a known type, so " ++ n.name ++
                octets " will load with no type and no OID"
        [.add { pos, severity := .error, code := .unknownType, message, symbol := name }]

def syntaxOfNode (node : Ast.Node) : List Effect :=
  match node.objectType with
  | none => []
  | some ot =>
      match ot.syntaxOf.sequence, ot.syntaxOf.type with
      | some row, _ => a.useType row ot.syntaxOf.pos (some node)
      | none, some type => a.useType type.name type.pos (some node)
      | none, none => []

def syntaxOfType (t : Ast.TypeDef) : List Effect :=
  t.syntaxOf.toList.flatMap (fun s => a.useType s.name s.pos none) ++
    t.textualConvention.toList.flatMap fun s => a.useType s.name s.pos none

def checkSyntaxTypes : List Effect :=
  a.module.body.nodes.flatMap a.syntaxOfNode ++ a.module.body.types.flatMap a.syntaxOfType

/-- The keys, sorted. -/
def keys : List Octets :=
  sortStrings ((a.module.body.nodes.map fun n => oidKey n.oid).filter fun key => key ≠ []).dedup

/-- What is said of a node whose key an earlier one has. -/
def duplicate (key : Octets) (names : List Octets) (node : Ast.Node) : Diagnostic :=
  { pos := (node.oid.map Ast.Oid.pos).getD ⟨0, 0⟩, severity := .error, code := .duplicateOid,
    message := octets "OID \x7b " ++ Substring.replaceAll [chr '.'] [chr ' '] key ++
      octets " \x7d is assigned to " ++ (octets " and ").intercalate names ++
      octets "; only one of them will ever resolve",
    symbol := node.name }

/-- The nodes of one key, but for the first. -/
def duplicatesOf (key : Octets) : List Diagnostic :=
  (a.byOid key).tail.map (duplicate key ((a.byOid key).map Ast.Node.name))

/-- A parent that is named but defined nowhere. -/
def checkParent (node : Ast.Node) : List Effect :=
  match node.oid with
  | none => []
  | some oid =>
      match oid.subIdentifiers.head?.bind Ast.SubIdentifier.name with
      | none => []
      | some parent =>
          .use parent ::
            if a.known parent || a.inCatalogue parent then []
            else
              [.add
                { pos := oid.pos, severity := .error, code := .unknownParent,
                  message := node.name ++ octets " is placed under " ++ a.quote parent ++
                    octets ", which is not defined here, imported, or in any loaded MIB",
                  symbol := parent }]

def checkOids : List Effect :=
  (a.keys.flatMap a.duplicatesOf).map .add ++ a.module.body.nodes.flatMap a.checkParent

def accessNotAccessible : Octets := octets "not-accessible"

def checkIndex (idx : Ast.Ref) : List Effect :=
  .use idx.name ::
    if a.known idx.name || a.inCatalogue idx.name then []
    else
      [.add
        { pos := idx.pos, severity := .error, code := .indexUndefined,
          message := octets "INDEX names " ++ a.quote idx.name ++
            octets ", which is not defined anywhere",
          symbol := idx.name }]

def checkAugments (pos : LexerPos) (name : Octets) : List Effect :=
  .use name ::
    if a.known name || a.inCatalogue name then []
    else
      [.add
        { pos, severity := .error, code := .indexUndefined,
          message := octets "AUGMENTS names " ++ a.quote name ++
            octets ", which is not defined anywhere",
          symbol := name }]

def checkTable (node : Ast.Node) : List Effect :=
  match node.objectType with
  | none => []
  | some ot =>
      let isRow := ot.index ≠ [] ∨ ot.augments.isSome
      let isTable := ot.syntaxOf.sequence.isSome
      let access : List Effect :=
        if (isRow ∨ isTable) ∧ ot.access ≠ accessNotAccessible then
          let what := if isTable then octets "a table" else octets "a conceptual row"
          [.add
            { pos := ot.pos, severity := .warning, code := .rowAccess,
              message := node.name ++ octets " is " ++ what ++
                octets ", so RFC2578 requires MAX-ACCESS not-accessible",
              symbol := node.name }]
        else []
      access ++ ot.index.flatMap a.checkIndex ++
        ot.augments.toList.flatMap (a.checkAugments ot.pos)

def checkTables : List Effect := a.module.body.nodes.flatMap a.checkTable

def checkDescription (node : Ast.Node) : List Effect :=
  match node.objectType with
  | none => []
  | some ot =>
      if trimSpace ot.description = [] then
        [.add
          { pos := node.pos, severity := .warning, code := .noDescription,
            message := node.name ++ octets " has no DESCRIPTION, which RFC2578 requires",
            symbol := node.name }]
      else []

def checkDescriptions : List Effect := a.module.body.nodes.flatMap checkDescription

/-- What the checks before the last one do, in their order. -/
def effects : List Effect :=
  a.checkImportedModules ++ a.checkSyntaxTypes ++ a.checkOids ++ a.checkTables ++
    a.checkDescriptions

end Analysis

def Effect.diagnostic : Effect → Option Diagnostic
  | .add d => some d
  | .use _ => none

/-- The text with the lines of the IMPORTS clause blank, but for what is behind its semicolon. -/
def bodyAfterImports (content : Octets) : Octets :=
  let lines := content.splitOn (chr '\n')
  let found := findClause 0 none none lines
  match found.importsAt, found.semicolonAt with
  | some first, some (last, col) =>
      [chr '\n'].intercalate (lines.zipIdx.map fun (line, i) =>
        if i = last then
          if col + 1 < line.length then
            List.replicate (col + 1) (chr ' ') ++ line.drop (col + 1)
          else []
        else if first ≤ i ∧ i < last then []
        else line)
  | _, _ => content

namespace Analysis

variable (a : Analysis)

def used (name : Octets) : Bool := a.effects.contains (.use name)

def checkUnusedImports : List Diagnostic :=
  let mentioned := scanIdentifiers (bodyAfterImports a.rawSource)
  let names := sortStrings a.module.body.importedNames.dedup
  names.filterMap fun name =>
    (a.imports name).bind fun use =>
      if a.used name || mentioned.any fun e => e.1 == name then none
      else
        some
          { pos := use.pos, severity := .info, code := .unusedImport,
            message := a.quote name ++ octets " is imported from " ++ use.module ++
              octets " but never used",
            symbol := name }

/-- By line, then by column; the order of diagnostics in one place is not fixed by the source. -/
def diagnosticLE (x y : Diagnostic) : Bool :=
  if x.pos.line = y.pos.line then x.pos.column ≤ y.pos.column else x.pos.line < y.pos.line

def report : List Diagnostic :=
  (a.effects.filterMap Effect.diagnostic ++ a.checkUnusedImports).insertionSort
    fun x y => diagnosticLE x y

end Analysis

/-- `analyseParsed`: a text that does not parse has nothing reported. -/
def analyseParsed (quote : Octets → Octets) (content : Octets) (module : Option Ast.Module)
    (cat : Catalogue) : List Diagnostic :=
  match module with
  | none => []
  | some module => ({ module, cat, rawSource := content, quote } : Analysis).report

end SnmpLens.Mib
