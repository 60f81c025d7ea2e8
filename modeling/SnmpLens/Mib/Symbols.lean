import Mathlib.Data.List.Sort
import SnmpLens.Mib.Source

/-!
# The symbols of a MIB

`pkg/mib/symbols.go`: the names the loaded tree knows, the names a text mentions outside of its
comments and strings, which of them it would have to import, and the text with those imports
added.

A text is parsed by `gosmi`. `Ast` is what is used of the tree it gives; where a node stands in
the text is part of it.
-/

namespace SnmpLens.Mib

open Utf8 Strings

/-- `lexerPos`: lines and columns begin at 1. -/
structure LexerPos where
  line : Nat
  column : Nat
deriving DecidableEq, Repr

/-! ## What gosmi makes of a text -/

namespace Ast

/-- `number`, `name` or `name(number)`. -/
structure SubIdentifier where
  name : Option Octets := none
  number : Option Nat := none
deriving DecidableEq, Repr

structure Oid where
  pos : LexerPos
  subIdentifiers : List SubIdentifier
deriving DecidableEq, Repr

/-- The names of one `FROM`. -/
structure Import where
  pos : LexerPos
  module : Octets
  names : List Octets
deriving DecidableEq, Repr

/-- A name, and where it stands. -/
structure Ref where
  pos : LexerPos
  name : Octets
deriving DecidableEq, Repr

/-- `SYNTAX`: a type, or the type of the rows of a table. -/
structure Syntax where
  pos : LexerPos
  sequence : Option Octets := none
  type : Option Ref := none
deriving DecidableEq, Repr

structure ObjectType where
  pos : LexerPos
  syntaxOf : Syntax
  access : Octets
  description : Octets
  index : List Ref := []
  augments : Option Octets := none
deriving DecidableEq, Repr

structure Node where
  pos : LexerPos
  name : Octets
  oid : Option Oid := none
  objectType : Option ObjectType := none
deriving DecidableEq, Repr

structure ModuleIdentity where
  name : Octets
  oid : Option Oid
deriving DecidableEq, Repr

structure TypeDef where
  name : Octets
  syntaxOf : Option Ref := none
  textualConvention : Option Ref := none
deriving DecidableEq, Repr

structure Body where
  imports : List Import := []
  identity : Option ModuleIdentity := none
  types : List TypeDef := []
  nodes : List Node := []
  macros : List Octets := []
deriving DecidableEq, Repr

structure Module where
  name : Octets
  body : Body
deriving DecidableEq, Repr

end Ast

/-! ## The loaded tree -/

/-- `mib.Symbol`, as far as the checks look at it. -/
structure Symbol where
  name : Octets
  module : Octets
deriving DecidableEq, Repr

structure Catalogue where
  modules : List Octets
  symbols : List Symbol
deriving DecidableEq, Repr

/-- Whether the loaded tree knows a name, importable or not. -/
def Catalogue.defined (c : Catalogue) (name : Octets) : Bool :=
  c.symbols.any fun s => s.name == name

/-- The module to import a name from: the first one that is not a pseudo-module. -/
def Catalogue.index (c : Catalogue) (name : Octets) : Option Octets :=
  (c.symbols.find? fun s => s.name == name && s.module ≠ [] && !s.module.contains (chr '<') &&
    !s.module.contains (chr '>')).map Symbol.module

/-- Built into SMI and never imported. -/
def baseTypes : List Octets :=
  ["INTEGER", "OCTET", "STRING", "OBJECT", "IDENTIFIER", "NULL", "SEQUENCE", "OF", "CHOICE", "BITS",
    "SIZE", "IMPLIED", "DEFINITIONS", "BEGIN", "END", "IMPORTS", "EXPORTS", "FROM", "MAX-ACCESS",
    "STATUS", "DESCRIPTION", "SYNTAX", "INDEX", "AUGMENTS", "UNITS", "REFERENCE", "DEFVAL",
    "ACCESS", "MIN-ACCESS", "OBJECTS", "NOTIFICATIONS", "MODULE", "MANDATORY-GROUPS", "GROUP", "WRITE-SYNTAX",
    "LAST-UPDATED", "ORGANIZATION", "CONTACT-INFO", "REVISION", "VARIABLES", "SUPPORTS",
    "PRODUCT-RELEASE", "MODULE-IDENTITY", "OBJECT-TYPE", "OBJECT-IDENTITY", "NOTIFICATION-TYPE",
    "TEXTUAL-CONVENTION", "OBJECT-GROUP", "NOTIFICATION-GROUP", "MODULE-COMPLIANCE",
    "AGENT-CAPABILITIES", "TRAP-TYPE", "MACRO"].map octets

/-! ## The names a text mentions -/

def isIdentStart (c : UInt8) : Bool :=
  (chr 'a' ≤ c && c ≤ chr 'z') || (chr 'A' ≤ c && c ≤ chr 'Z')

def isIdentPart (c : UInt8) : Bool :=
  isIdentStart c || (chr '0' ≤ c && c ≤ chr '9') || c == chr '-' || c == chr '_'

theorem isIdentStart_iff {c : UInt8} : isIdentStart c = true ↔
    (97 ≤ c.toNat ∧ c.toNat ≤ 122) ∨ (65 ≤ c.toNat ∧ c.toNat ≤ 90) := by
  simp [isIdentStart, UInt8.le_iff_toNat_le, show (chr 'a').toNat = 97 from rfl,
    show (chr 'z').toNat = 122 from rfl, show (chr 'A').toNat = 65 from rfl,
    show (chr 'Z').toNat = 90 from rfl]

def skipSpace (s : Octets) : Octets := s.dropWhile fun b => b == chr ' ' || b == chr '\t'

/-- Whether what follows an identifier on its line is a number in parentheses. -/
def namedNumberAt (following : Octets) : Bool :=
  match skipSpace following with
  | [] => false
  | b :: rest =>
      if b ≠ chr '(' then false
      else
        let rest := skipSpace rest
        let rest :=
          if rest.head? = some (chr '-') ∨ rest.head? = some (chr '+') then rest.tail else rest
        let digits := rest.takeWhile isDigit
        let rest := skipSpace (rest.drop digits.length)
        digits ≠ [] && rest.head? == some (chr ')')

/-- The rest of a line from its column `i` on (from 0), in a string or not: the identifiers in it
with their columns, and whether a string is open behind it. `fuel` is how many octets there are. -/
def scanLine : Nat → Bool → Nat → Octets → List (Octets × Nat) × Bool
  | 0, inString, _, _ => ([], inString)
  | _ + 1, inString, _, [] => ([], inString)
  | fuel + 1, true, i, b :: rest =>
      match (b :: rest).idxOf? (chr '"') with
      | some close => scanLine fuel false (i + close + 1) ((b :: rest).drop (close + 1))
      | none => ([], true)
  | fuel + 1, false, i, b :: rest =>
      if b = chr '"' then scanLine fuel true (i + 1) rest
      else if b = chr '-' ∧ rest.head? = some (chr '-') then
        match index (octets "--") rest.tail with
        | some close => scanLine fuel false (i + 2 + close + 2) (rest.tail.drop (close + 2))
        | none => ([], false)
      else if isIdentStart b then
        let word := (b :: rest).takeWhile isIdentPart
        let following := (b :: rest).drop word.length
        let (found, inString) := scanLine fuel false (i + word.length) following
        if namedNumberAt following then (found, inString) else ((word, i + 1) :: found, inString)
      else scanLine fuel false (i + 1) rest

/-- The lines from the line `lineNo` on. -/
def scanLines : Bool → Nat → List Octets → List (Octets × LexerPos)
  | _, _, [] => []
  | inString, lineNo, line :: rest =>
      let (found, inString) := scanLine line.length inString 0 line
      found.map (fun e => (e.1, ⟨lineNo, e.2⟩)) ++ scanLines inString (lineNo + 1) rest

/-- Each identifier outside of comments and strings, with its first position. -/
def scanIdentifiers (content : Octets) : List (Octets × LexerPos) :=
  (scanLines false 1 (content.splitOn (chr '\n'))).foldl
    (fun found e => if found.any fun f => f.1 == e.1 then found else found ++ [e]) []

/-- `sort.Strings`. -/
def sortStrings (xs : List Octets) : List Octets := xs.insertionSort fun a b => !decide (b < a)

/-! ## Missing imports -/

structure MissingImport where
  symbol : Octets
  module : Octets
  pos : LexerPos
deriving DecidableEq, Repr

/-- The names a module has without importing them. -/
def Ast.Body.definedNames (b : Ast.Body) : List Octets :=
  b.identity.toList.map Ast.ModuleIdentity.name ++ b.nodes.map Ast.Node.name ++
    b.types.map Ast.TypeDef.name ++ b.macros

def Ast.Body.importedNames (b : Ast.Body) : List Octets := b.imports.flatMap Ast.Import.names

/-- By line, then by symbol. -/
def missingLE (a b : MissingImport) : Bool :=
  if a.pos.line = b.pos.line then !decide (b.symbol < a.symbol) else a.pos.line < b.pos.line

/-- A text that does not parse has nothing missing. -/
def checkImportsParsed (content : Octets) (module : Option Ast.Module)
    (origin : Octets → Option Octets) : List MissingImport :=
  match module with
  | none => []
  | some m =>
      let known := m.body.importedNames ++ m.body.definedNames
      let missing := (scanIdentifiers content).filterMap fun (word, pos) =>
        if known.contains word || baseTypes.contains word || word == m.name then none
        else
          match origin word with
          | none => none
          | some mod => if mod = m.name then none else some ⟨word, mod, pos⟩
      missing.insertionSort fun a b => missingLE a b

/-! ## Adding them -/

/-- The text from some octet on, whether it may begin a word there or not. -/
def containsWordFrom (word : Octets) : Bool → Octets → Bool
  | _, [] => false
  | before, b :: s =>
      (before && word.isPrefixOf (b :: s) &&
          !(((b :: s).drop word.length).head?.any isIdentPart)) ||
        containsWordFrom word (!isIdentPart b) s

/-- Whether a word stands in a line as a whole identifier. -/
def containsWord (s word : Octets) : Bool := containsWordFrom word true s

/-- Where `insertImports` finds things: the line of the `BEGIN`, that of the `IMPORTS`, and the line
and the column of the first semicolon from there on. -/
structure Found where
  beginAt : Option Nat
  importsAt : Option Nat
  semicolonAt : Option (Nat × Nat)
deriving DecidableEq, Repr

/-- The search, from the line `i` on. -/
def findClause (i : Nat) (beginAt importsAt : Option Nat) : List Octets → Found
  | [] => ⟨beginAt, importsAt, none⟩
  | l :: rest =>
      let code := stripComment l
      let beginAt := beginAt <|> if containsWord code (octets "BEGIN") then some i else none
      let importsAt := importsAt <|> if containsWord code (octets "IMPORTS") then some i else none
      match importsAt, code.idxOf? (chr ';') with
      | some _, some col => ⟨beginAt, importsAt, some (i, col)⟩
      | _, _ => findClause (i + 1) beginAt importsAt rest

/-- The last line of a block with a semicolon behind it. -/
def closed (block : List Octets) : List Octets :=
  block.dropLast ++ block.getLast?.toList.map (· ++ [chr ';'])

/-- What is added for each module: its symbols, and the `FROM`. -/
def importClauses (modules : List Octets) (byModule : Octets → List Octets) : List Octets :=
  modules.flatMap fun m =>
    [octets "    " ++ (octets ", ").intercalate (byModule m), octets "        FROM " ++ m]

def insertImports (lines modules : List Octets) (byModule : Octets → List Octets) : List Octets :=
  let clauses := importClauses modules byModule
  let found := findClause 0 none none lines
  match found.semicolonAt with
  | some (i, col) =>
      let line := (lines[i]?).getD []
      let head := (line.take col).rdropWhile fun b => b == chr ' ' || b == chr '\t'
      let tail := line.drop (col + 1)
      lines.take i ++ (if head = [] then [] else [head]) ++ closed clauses ++
        (if trimSpace tail = [] then [] else [tail]) ++ lines.drop (i + 1)
  | none =>
      match found.beginAt with
      | some i =>
          lines.take (i + 1) ++ closed ([[], octets "IMPORTS"] ++ clauses) ++ lines.drop (i + 1)
      | none => lines

/-- What is missing, and the text with it; no text where nothing is. -/
def fixImports (content : Octets) (module : Option Ast.Module) (cat : Catalogue) :
    List MissingImport × Octets :=
  let missing := checkImportsParsed content module cat.index
  if missing = [] then ([], [])
  else
    let modules := sortStrings (missing.map MissingImport.module).dedup
    let byModule := fun m =>
      sortStrings ((missing.filter fun x => x.module == m).map MissingImport.symbol)
    (missing, [chr '\n'].intercalate (insertImports (content.splitOn (chr '\n')) modules byModule))

theorem findClause_semicolon {lines : List Octets} {i row col : Nat} {beginAt importsAt : Option Nat}
    (h : (findClause i beginAt importsAt lines).semicolonAt = some (row, col)) :
    ∃ front text back, lines = front ++ text :: back ∧ row = i + front.length ∧
      text[col]? = some (chr ';') := by
  induction lines generalizing i beginAt importsAt with
  | nil => cases h
  | cons l rest ih =>
      unfold findClause at h
      dsimp only at h
      split at h
      · rename_i at_ hat
        cases h
        refine ⟨[], l, rest, rfl, rfl, ?_⟩
        have hprefix : stripComment l <+: l := by
          unfold stripComment
          split
          · exact List.take_prefix _ _
          · exact List.prefix_rfl
        obtain ⟨t, ht⟩ := hprefix
        obtain ⟨hlt, hget, -⟩ := List.findIdx?_eq_some_iff_getElem.mp hat
        rw [← ht, List.getElem?_append_left hlt, List.getElem?_eq_getElem hlt, beq_iff_eq.mp hget]
      · obtain ⟨front, line, back, rfl, rfl, hline⟩ := ih h
        exact ⟨l :: front, line, back, rfl, by rw [List.length_cons]; omega, hline⟩

end SnmpLens.Mib
