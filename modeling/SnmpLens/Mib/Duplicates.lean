import Mathlib.Data.List.Dedup
import Mathlib.Tactic.FinCases
import SnmpLens.Mib.Analyse

/-!
# Which definitions repeat an object identifier

An assignment is a parent and some arcs below it; the parent may be defined in the same text, and
then its arcs come first. `FullOid` is that expansion, and what `checkOids` compares is the
assignments before it. Two that are written alike expand alike, so nothing is reported wrongly
unless there is no expansion at all; and what repeats an identifier under another parent, or with
more arcs at once, or repeats that of the module identity, is reported only when it is also
written like a node before it.
-/

namespace SnmpLens.Mib

open Utf8 Strings

/-! ## Full identifiers -/

inductive Arc where
  | number (n : Nat)
  | name (s : Octets)
deriving DecidableEq, Repr

/-- A number, alone or behind a name, or else a name. -/
def Ast.SubIdentifier.arc (sub : Ast.SubIdentifier) : Arc :=
  match sub.number with
  | some n => .number n
  | none => .name (sub.name.getD [])

def Ast.Oid.arcs (oid : Ast.Oid) : List Arc := oid.subIdentifiers.map Ast.SubIdentifier.arc

/-- A name and how it is written under its parent. -/
structure Definition where
  name : Octets
  arcs : List Arc
deriving DecidableEq, Repr

def Ast.Node.definition (n : Ast.Node) : Option Definition :=
  n.oid.map fun oid => ⟨n.name, oid.arcs⟩

def Ast.ModuleIdentity.definition (i : Ast.ModuleIdentity) : Option Definition :=
  i.oid.map fun oid => ⟨i.name, oid.arcs⟩

/-- The module identity, and the nodes that are given. -/
def Ast.Body.definedBy (b : Ast.Body) (nodes : List Ast.Node) : List Definition :=
  b.identity.toList.filterMap Ast.ModuleIdentity.definition ++ nodes.filterMap Ast.Node.definition

/-- What the arcs are with the parents that are defined put for their names. -/
inductive FullOid (defs : List Definition) : List Arc → List Arc → Prop where
  | outside {arcs : List Arc} (h : ∀ d ∈ defs, arcs.head? ≠ some (.name d.name)) :
      FullOid defs arcs arcs
  | under {d : Definition} {oid rest : List Arc} (hd : d ∈ defs) (h : FullOid defs d.arcs oid) :
      FullOid defs (.name d.name :: rest) (oid ++ rest)

/-- Whether a node has the full identifier of the module identity or of a node before it. -/
def Repeats (b : Ast.Body) (front : List Ast.Node) (oid : Ast.Oid) : Prop :=
  ∃ d ∈ b.definedBy front, ∃ full,
    FullOid (b.definedBy b.nodes) d.arcs full ∧ FullOid (b.definedBy b.nodes) oid.arcs full

/-- Whether a node is written like one before it. -/
def WrittenLike (front : List Ast.Node) (oid : Ast.Oid) : Prop :=
  ∃ earlier ∈ front, ∃ oid', earlier.oid = some oid' ∧ oid'.arcs = oid.arcs

/-! ## What a parse promises -/

def IsIdent (s : Octets) : Prop := ∃ b rest, s = b :: rest ∧ isIdentStart b = true ∧
  ∀ c ∈ rest, isIdentPart c = true

structure Ast.Oid.Parsed (oid : Ast.Oid) : Prop where
  some : oid.subIdentifiers ≠ []
  /-- Every part has a name or a number, and the names are identifiers. -/
  parts : ∀ sub ∈ oid.subIdentifiers, (sub.number.isSome ∨ sub.name.isSome) ∧
    ∀ name ∈ sub.name, IsIdent name

structure Ast.Body.Parsed (b : Ast.Body) : Prop where
  oids : ∀ node ∈ b.nodes, ∀ oid ∈ node.oid, oid.Parsed
  /-- No two assignments stand in the same place. -/
  places : (b.nodes.filterMap fun n => n.oid.map Ast.Oid.pos).Nodup

/-! ## Keys -/

theorem dot_not_mem_ident {s : Octets} (h : IsIdent s) : chr '.' ∉ s := by
  obtain ⟨b, rest, rfl, hb, hrest⟩ := h
  intro hin
  rcases List.mem_cons.mp hin with rfl | hin
  · cases hb
  · exact absurd (hrest _ hin) (by decide)

theorem formatUint_ne_ident {s : Octets} (h : IsIdent s) (n : Nat) : formatUint n ≠ s := by
  obtain ⟨b, rest, rfl, hb, -⟩ := h
  intro heq
  have hdigit : isDigit b = true := isDigit_of_mem (heq ▸ List.mem_cons_self)
  have hstart := isIdentStart_iff.mp hb
  have hdigits := isDigit_iff.mp hdigit
  omega

theorem exists_keyPart {sub : Ast.SubIdentifier} (hpart : sub.number.isSome ∨ sub.name.isSome)
    (hname : ∀ name ∈ sub.name, IsIdent name) :
    ∃ text, Analysis.keyPart sub = some text ∧ chr '.' ∉ text ∧
      (sub.arc = .name text ∧ IsIdent text ∨ ∃ n, sub.arc = .number n ∧ text = formatUint n) := by
  cases sub with
  | mk name number =>
      cases number with
      | some n => exact ⟨formatUint n, rfl, dot_not_mem_formatUint n, .inr ⟨n, rfl, rfl⟩⟩
      | none =>
          cases name with
          | none => exact absurd hpart (by simp)
          | some name =>
              have hident := hname name rfl
              exact ⟨name, rfl, dot_not_mem_ident hident, .inl ⟨rfl, hident⟩⟩

variable {subs subs' : List Ast.SubIdentifier} {oid oid' : Ast.Oid}

theorem keyParts_inj
    (h : ∀ sub ∈ subs, (sub.number.isSome ∨ sub.name.isSome) ∧ ∀ name ∈ sub.name, IsIdent name)
    (h' : ∀ sub ∈ subs', (sub.number.isSome ∨ sub.name.isSome) ∧ ∀ name ∈ sub.name, IsIdent name) :
    subs.filterMap Analysis.keyPart = subs'.filterMap Analysis.keyPart ↔
      subs.map Ast.SubIdentifier.arc = subs'.map Ast.SubIdentifier.arc := by
  induction subs generalizing subs' with
  | nil =>
      cases subs' with
      | nil => exact iff_of_true rfl rfl
      | cons t subs' =>
          obtain ⟨hpart, hname⟩ := h' t List.mem_cons_self
          obtain ⟨text, htext, -, -⟩ := exists_keyPart hpart hname
          rw [List.filterMap_cons_some htext]
          exact iff_of_false (by simp) (by simp)
  | cons s subs ih =>
      obtain ⟨hpart, hname⟩ := h s List.mem_cons_self
      obtain ⟨text, htext, -, harc⟩ := exists_keyPart hpart hname
      rw [List.filterMap_cons_some htext]
      cases subs' with
      | nil => exact iff_of_false (by simp) (by simp)
      | cons t subs' =>
          obtain ⟨hpart', hname'⟩ := h' t List.mem_cons_self
          obtain ⟨text', htext', -, harc'⟩ := exists_keyPart hpart' hname'
          rw [List.filterMap_cons_some htext', List.cons.injEq, List.map_cons, List.map_cons,
            List.cons.injEq, ih (fun sub hs => h sub (List.mem_cons_of_mem _ hs))
              (fun sub hs => h' sub (List.mem_cons_of_mem _ hs))]
          refine and_congr_left fun _ => ?_
          rcases harc with ⟨harc, hident⟩ | ⟨n, harc, rfl⟩
          · rcases harc' with ⟨harc', -⟩ | ⟨n, harc', rfl⟩
            · rw [harc, harc', Arc.name.injEq]
            · rw [harc, harc']
              exact iff_of_false (fun heq => formatUint_ne_ident hident n heq.symm) (by simp)
          · rcases harc' with ⟨harc', hident'⟩ | ⟨m, harc', rfl⟩
            · rw [harc, harc']
              exact iff_of_false (formatUint_ne_ident hident' n) (by simp)
            · rw [harc, harc', Arc.number.injEq]
              exact ⟨formatUint_inj, fun h => h ▸ rfl⟩

/-- **Keys are equal where the assignments are written alike.** -/
theorem oidKey_inj (h : oid.Parsed) (h' : oid'.Parsed) :
    Analysis.oidKey (some oid) = Analysis.oidKey (some oid') ↔ oid.arcs = oid'.arcs := by
  have hsplit : ∀ o : Ast.Oid, o.Parsed → (Analysis.oidKey (some o)).splitOn (chr '.') =
      o.subIdentifiers.filterMap Analysis.keyPart := by
    intro o ho
    refine List.splitOn_intercalate _ ?_ ?_
    · intro text htext
      obtain ⟨sub, hsub, hpart⟩ := List.mem_filterMap.mp htext
      obtain ⟨text', htext', hdot, -⟩ := exists_keyPart (ho.parts sub hsub).1 (ho.parts sub hsub).2
      rw [htext'] at hpart
      exact Option.some.inj hpart ▸ hdot
    · intro hnil
      obtain ⟨sub, rest, hsubs⟩ := List.exists_cons_of_ne_nil ho.some
      have hsub := ho.parts sub (hsubs ▸ List.mem_cons_self)
      obtain ⟨text, htext, -, -⟩ := exists_keyPart hsub.1 hsub.2
      rw [hsubs, List.filterMap_cons_some htext] at hnil
      cases hnil
  rw [Ast.Oid.arcs, Ast.Oid.arcs, ← keyParts_inj h.parts h'.parts, ← hsplit oid h, ← hsplit oid' h']
  exact ⟨fun h => h ▸ rfl, fun h => by
    have := congrArg (fun parts => [chr '.'].intercalate parts) h
    simpa [List.intercalate_splitOn] using this⟩

theorem oidKey_ne_nil (h : oid.Parsed) : Analysis.oidKey (some oid) ≠ [] := by
  obtain ⟨sub, rest, hsubs⟩ := List.exists_cons_of_ne_nil h.some
  have hsub := h.parts sub (hsubs ▸ List.mem_cons_self)
  obtain ⟨text, htext, -, harc⟩ := exists_keyPart hsub.1 hsub.2
  have hne : text ≠ [] := by
    rcases harc with ⟨-, b, rest, rfl, -⟩ | ⟨n, -, rfl⟩
    · exact List.cons_ne_nil _ _
    · exact formatUint_ne_nil n
  obtain ⟨b, text, rfl⟩ := List.exists_cons_of_ne_nil hne
  intro hnil
  have hkey : Analysis.oidKey (some oid) =
      [chr '.'].intercalate ((b :: text) :: rest.filterMap Analysis.keyPart) := by
    show [chr '.'].intercalate (oid.subIdentifiers.filterMap Analysis.keyPart) = _
    rw [hsubs, List.filterMap_cons_some htext]
  rw [hkey] at hnil
  cases hrest : rest.filterMap Analysis.keyPart with
  | nil =>
      rw [hrest] at hnil
      exact absurd hnil (by simp [List.intercalate])
  | cons y ys =>
      rw [hrest] at hnil
      exact absurd hnil (by simp [List.intercalate, List.intersperse])

/-! ## What is reported of duplicates -/

section reports

variable {a : Analysis}

def Effect.IsDuplicate : Effect → Prop
  | .add d => d.code = .duplicateOid
  | .use _ => False

theorem useType_other (name : Octets) (pos : LexerPos) (node : Option Ast.Node) :
    ∀ e ∈ a.useType name pos node, ¬ e.IsDuplicate := by
  unfold Analysis.useType
  intro e he
  split at he
  · exact absurd he List.not_mem_nil
  · rcases List.mem_cons.mp he with rfl | he
    · exact id
    · split at he
      · exact absurd he List.not_mem_nil
      · rw [List.mem_singleton.mp he]
        exact Code.noConfusion

theorem checkImportedModules_other : ∀ e ∈ a.checkImportedModules, ¬ e.IsDuplicate := by
  unfold Analysis.checkImportedModules
  intro e he
  split at he
  · exact absurd he List.not_mem_nil
  · obtain ⟨imp, -, hadd⟩ := List.mem_filterMap.mp he
    split at hadd
    · cases hadd
    · rw [← Option.some.inj hadd]
      exact Code.noConfusion

theorem checkSyntaxTypes_other : ∀ e ∈ a.checkSyntaxTypes, ¬ e.IsDuplicate := by
  unfold Analysis.checkSyntaxTypes
  intro e he
  rcases List.mem_append.mp he with he | he
  · obtain ⟨node, -, he⟩ := List.mem_flatMap.mp he
    unfold Analysis.syntaxOfNode at he
    split at he
    · exact absurd he List.not_mem_nil
    · split at he
      · exact useType_other _ _ _ e he
      · exact useType_other _ _ _ e he
      · exact absurd he List.not_mem_nil
  · obtain ⟨t, -, he⟩ := List.mem_flatMap.mp he
    rcases List.mem_append.mp he with he | he
    · obtain ⟨r, -, he⟩ := List.mem_flatMap.mp he
      exact useType_other _ _ _ e he
    · obtain ⟨r, -, he⟩ := List.mem_flatMap.mp he
      exact useType_other _ _ _ e he

theorem checkParent_other (node : Ast.Node) : ∀ e ∈ a.checkParent node, ¬ e.IsDuplicate := by
  unfold Analysis.checkParent
  intro e he
  split at he
  · exact absurd he List.not_mem_nil
  · split at he
    · exact absurd he List.not_mem_nil
    · rcases List.mem_cons.mp he with rfl | he
      · exact id
      · split at he
        · exact absurd he List.not_mem_nil
        · rw [List.mem_singleton.mp he]
          exact Code.noConfusion

theorem checkTables_other : ∀ e ∈ a.checkTables, ¬ e.IsDuplicate := by
  have hnamed : ∀ (name : Octets) (d : Diagnostic), d.code = .indexUndefined →
      ∀ e ∈ Effect.use name :: (if a.known name || a.inCatalogue name then [] else [.add d]),
        ¬ e.IsDuplicate := by
    intro name d hd e he
    rcases List.mem_cons.mp he with rfl | he
    · exact id
    · split at he
      · exact absurd he List.not_mem_nil
      · rw [List.mem_singleton.mp he]
        exact fun h => Code.noConfusion (hd.symm.trans h)
  unfold Analysis.checkTables
  intro e he
  obtain ⟨node, -, he⟩ := List.mem_flatMap.mp he
  unfold Analysis.checkTable at he
  split at he
  · exact absurd he List.not_mem_nil
  · rcases List.mem_append.mp he with he | he
    · rcases List.mem_append.mp he with he | he
      · split at he
        · rw [List.mem_singleton.mp he]
          exact Code.noConfusion
        · exact absurd he List.not_mem_nil
      · obtain ⟨idx, -, he⟩ := List.mem_flatMap.mp he
        exact hnamed _ _ rfl e he
    · obtain ⟨name, -, he⟩ := List.mem_flatMap.mp he
      exact hnamed _ _ rfl e he

theorem checkDescriptions_other : ∀ e ∈ a.checkDescriptions, ¬ e.IsDuplicate := by
  unfold Analysis.checkDescriptions
  intro e he
  obtain ⟨node, -, he⟩ := List.mem_flatMap.mp he
  unfold Analysis.checkDescription at he
  split at he
  · exact absurd he List.not_mem_nil
  · split at he
    · rw [List.mem_singleton.mp he]
      exact Code.noConfusion
    · exact absurd he List.not_mem_nil

theorem filter_other {es : List Effect} (h : ∀ e ∈ es, ¬ e.IsDuplicate) :
    (es.filterMap Effect.diagnostic).filter (fun d => d.code = .duplicateOid) = [] := by
  rw [List.filter_eq_nil_iff]
  intro d hd hcode
  obtain ⟨e, he, hadd⟩ := List.mem_filterMap.mp hd
  cases e with
  | add d' =>
      obtain rfl := Option.some.inj hadd
      have hdup : d'.code = .duplicateOid := of_decide_eq_true hcode
      exact h _ he hdup
  | use name => exact absurd hadd (by simp [Effect.diagnostic])

/-- **The duplicates that are reported** are those of the groups of one key. -/
theorem report_duplicates :
    (a.report.filter fun d => d.code = .duplicateOid).Perm (a.keys.flatMap a.duplicatesOf) := by
  have hsorted : (a.report.filter fun d => d.code = .duplicateOid).Perm
      ((a.effects.filterMap Effect.diagnostic ++ a.checkUnusedImports).filter
        fun d => d.code = .duplicateOid) := (List.perm_insertionSort _ _).filter _
  have hunused : a.checkUnusedImports.filter (fun d => d.code = .duplicateOid) = [] := by
    rw [List.filter_eq_nil_iff]
    intro d hd hcode
    obtain ⟨name, -, hsome⟩ := List.mem_filterMap.mp hd
    obtain ⟨use, -, hsome⟩ := Option.bind_eq_some_iff.mp hsome
    split at hsome
    · cases hsome
    · rw [← Option.some.inj hsome] at hcode
      cases hcode
  have hgroups : ((a.keys.flatMap a.duplicatesOf).map Effect.add).filterMap Effect.diagnostic =
      a.keys.flatMap a.duplicatesOf := by
    rw [List.filterMap_map]
    exact List.filterMap_some
  have hall : (a.keys.flatMap a.duplicatesOf).filter (fun d => d.code = .duplicateOid) =
      a.keys.flatMap a.duplicatesOf := by
    refine List.filter_eq_self.mpr fun d hd => ?_
    obtain ⟨key, -, hd⟩ := List.mem_flatMap.mp hd
    obtain ⟨node, -, rfl⟩ := List.mem_map.mp hd
    rfl
  have hparents : ((a.module.body.nodes.flatMap a.checkParent).filterMap Effect.diagnostic).filter
      (fun d => d.code = .duplicateOid) = [] := by
    refine filter_other fun e he => ?_
    obtain ⟨node, -, he⟩ := List.mem_flatMap.mp he
    exact checkParent_other node e he
  refine hsorted.trans (.of_eq ?_)
  unfold Analysis.effects Analysis.checkOids
  simp only [List.filterMap_append, List.filter_append, filter_other checkImportedModules_other,
    filter_other checkSyntaxTypes_other, filter_other checkTables_other,
    filter_other checkDescriptions_other, hparents, hunused, hgroups, hall, List.nil_append,
    List.append_nil]

end reports

/-! ## Exactness -/

theorem split_unique {α β : Type} {f : α → Option β} {l r l' r' : List α} {x y : α} {p : β}
    (hnodup : ((l ++ x :: r).filterMap f).Nodup) (heq : l ++ x :: r = l' ++ y :: r')
    (hx : f x = some p) (hy : f y = some p) : l = l' := by
  have htwice : ∀ {u v w : List α} {s t : α}, f s = some p → f t = some p →
      ¬ ((u ++ s :: (v ++ t :: w)).filterMap f).Nodup := by
    intro u v w s t hs ht hn
    rw [List.filterMap_append, List.filterMap_cons_some hs, List.filterMap_append,
      List.filterMap_cons_some ht] at hn
    have hcons := (List.nodup_append.mp hn).2.1
    exact (List.nodup_cons.mp hcons).1 (List.mem_append_right _ List.mem_cons_self)
  rcases List.append_eq_append_iff.mp heq with ⟨m, hl', hm⟩ | ⟨m, hl, hm⟩
  · cases m with
    | nil => rw [hl', List.append_nil]
    | cons z m =>
        obtain ⟨rfl, rfl⟩ := List.cons.inj hm
        exact absurd hnodup (htwice hx hy)
  · cases m with
    | nil => rw [hl, List.append_nil]
    | cons z m =>
        obtain ⟨rfl, rfl⟩ := List.cons.inj hm
        rw [heq] at hnodup
        exact absurd hnodup (htwice hy hx)

/-- What comes behind the first of a kind has one of the kind in front of it. -/
theorem mem_tail_filter {α : Type} {p : α → Bool} {l : List α} {x : α}
    (h : x ∈ (l.filter p).tail) :
    ∃ front behind, l = front ++ x :: behind ∧ p x = true ∧ ∃ y ∈ front, p y = true := by
  induction l with
  | nil => exact absurd h List.not_mem_nil
  | cons b l ih =>
      by_cases hb : p b = true
      · rw [List.filter_cons_of_pos hb, List.tail_cons] at h
        obtain ⟨hx, hpx⟩ := List.mem_filter.mp h
        obtain ⟨v, w, rfl⟩ := List.append_of_mem hx
        exact ⟨b :: v, w, rfl, hpx, b, List.mem_cons_self, hb⟩
      · rw [List.filter_cons_of_neg hb] at h
        obtain ⟨front, behind, rfl, hpx, y, hy, hpy⟩ := ih h
        exact ⟨b :: front, behind, rfl, hpx, y, List.mem_cons_of_mem _ hy, hpy⟩

theorem mem_tail_of_mem_front {α : Type} {p : α → Bool} {front behind : List α} {x y : α}
    (hy : y ∈ front) (hpy : p y = true) (hpx : p x = true) :
    x ∈ ((front ++ x :: behind).filter p).tail := by
  obtain ⟨z, zs, hfront⟩ := List.exists_cons_of_ne_nil
    (List.ne_nil_of_mem (List.mem_filter.mpr ⟨hy, hpy⟩))
  rw [List.filter_append, hfront, List.filter_cons_of_pos hpx]
  exact List.mem_append_right _ List.mem_cons_self

/-- What a diagnostic names. -/
def Names (d : Diagnostic) (node : Ast.Node) : Prop :=
  d.symbol = node.name ∧ ∃ oid, node.oid = some oid ∧ d.pos = oid.pos

variable {a : Analysis}

theorem mem_keys {key : Octets} (h : key ∈ a.keys) : key ≠ [] :=
  of_decide_eq_true (List.mem_filter.mp
    (List.mem_dedup.mp ((List.perm_insertionSort _ _).mem_iff.mp h))).2

theorem oid_of_mem_byOid {key : Octets} (hkey : key ≠ []) {node : Ast.Node}
    (h : node ∈ a.byOid key) : ∃ oid, node.oid = some oid := by
  have hnode := beq_iff_eq.mp (List.mem_filter.mp h).2
  cases hoid : node.oid with
  | none =>
      rw [hoid] at hnode
      exact absurd hnode.symm hkey
  | some oid => exact ⟨oid, rfl⟩

/-- **A node is reported when it is written like one before it**, and only then. -/
theorem reported_iff (h : a.module.body.Parsed) {front behind : List Ast.Node} {node : Ast.Node}
    (hnodes : a.module.body.nodes = front ++ node :: behind) {oid : Ast.Oid}
    (hoid : node.oid = some oid) :
    (∃ d ∈ a.report, d.code = .duplicateOid ∧ Names d node) ↔ WrittenLike front oid := by
  have hmem : ∀ d, (d ∈ a.report ∧ d.code = .duplicateOid) ↔ d ∈ a.keys.flatMap a.duplicatesOf := by
    intro d
    rw [← report_duplicates.mem_iff, List.mem_filter, decide_eq_true_iff]
  have hparsed : ∀ n ∈ a.module.body.nodes, ∀ o, n.oid = some o → o.Parsed := h.oids
  have hnode : node ∈ a.module.body.nodes := hnodes ▸ List.mem_append_right _ List.mem_cons_self
  constructor
  · intro hd
    obtain ⟨d, hd, hcode, hname, oid₁, hoid₁, hpos⟩ := hd
    obtain rfl : oid = oid₁ := Option.some.inj (hoid.symm.trans hoid₁)
    obtain ⟨key, hkey, hd⟩ := List.mem_flatMap.mp ((hmem d).mp ⟨hd, hcode⟩)
    obtain ⟨other, hother, rfl⟩ := List.mem_map.mp hd
    obtain ⟨front', behind', hsplit, hkeyed, first, hfirst, hsame⟩ := mem_tail_filter hother
    have hin : first ∈ a.module.body.nodes := hsplit ▸ List.mem_append_left _ hfirst
    obtain ⟨o, ho⟩ := oid_of_mem_byOid (mem_keys hkey) (List.mem_of_mem_tail hother)
    obtain ⟨o', ho'⟩ := oid_of_mem_byOid (mem_keys hkey) (List.mem_filter.mpr ⟨hin, hsame⟩)
    -- The node that is reported has the place of this one, so it is this one.
    have hplace : o.pos = oid.pos := by
      rw [← hpos]
      simp [Analysis.duplicate, ho]
    have hplaces := h.places
    rw [hnodes] at hplaces
    obtain rfl : front = front' := split_unique hplaces (hnodes.symm.trans hsplit)
      (show node.oid.map Ast.Oid.pos = some oid.pos by rw [hoid]; rfl)
      (show other.oid.map Ast.Oid.pos = some oid.pos by rw [ho, ← hplace]; rfl)
    obtain ⟨rfl, -⟩ := List.cons.inj (List.append_cancel_left (hnodes.symm.trans hsplit))
    refine ⟨first, hfirst, o', ho', ?_⟩
    refine (oidKey_inj (hparsed _ hin _ ho') (hparsed _ hnode _ hoid)).mp ?_
    rw [← ho', ← hoid, beq_iff_eq.mp hsame, beq_iff_eq.mp hkeyed]
  · intro hlike
    obtain ⟨earlier, hearlier, oid', hoid', harcs⟩ := hlike
    have hmem' : earlier ∈ a.module.body.nodes := hnodes ▸ List.mem_append_left _ hearlier
    have hkey : Analysis.oidKey earlier.oid = Analysis.oidKey node.oid := by
      rw [hoid', hoid]
      exact (oidKey_inj (hparsed _ hmem' _ hoid') (hparsed _ hnode _ hoid)).mpr harcs
    have htail : node ∈ (a.byOid (Analysis.oidKey node.oid)).tail := by
      unfold Analysis.byOid
      rw [hnodes]
      exact mem_tail_of_mem_front hearlier (beq_iff_eq.mpr hkey) (beq_self_eq_true _)
    have hkeys : Analysis.oidKey node.oid ∈ a.keys := by
      refine (List.perm_insertionSort _ _).mem_iff.mpr (List.mem_dedup.mpr (List.mem_filter.mpr ?_))
      refine ⟨List.mem_map_of_mem hnode, decide_eq_true ?_⟩
      rw [hoid]
      exact oidKey_ne_nil (hparsed _ hnode _ hoid)
    obtain ⟨hd, hcode⟩ := (hmem _).mpr
      (List.mem_flatMap.mpr ⟨_, hkeys, List.mem_map_of_mem htail⟩)
    refine ⟨_, hd, hcode, rfl, oid, hoid, ?_⟩
    simp [Analysis.duplicate, hoid]

theorem mem_duplicatesOf {key : Octets} {d : Diagnostic} (hkey : key ≠ [])
    (h : d ∈ a.duplicatesOf key) :
    ∃ node ∈ a.byOid key, d.code = .duplicateOid ∧ Names d node := by
  obtain ⟨node, hnode, rfl⟩ := List.mem_map.mp h
  have hin : node ∈ a.byOid key := List.mem_of_mem_tail hnode
  obtain ⟨oid, hoid⟩ := oid_of_mem_byOid hkey hin
  refine ⟨node, hin, rfl, rfl, oid, hoid, ?_⟩
  simp [Analysis.duplicate, hoid]

theorem duplicates_name {d : Diagnostic} (hd : d ∈ a.report) (hcode : d.code = .duplicateOid) :
    ∃ node ∈ a.module.body.nodes, Names d node := by
  have hin := report_duplicates.mem_iff.mp (List.mem_filter.mpr ⟨hd, decide_eq_true hcode⟩)
  obtain ⟨key, hkey, hd⟩ := List.mem_flatMap.mp hin
  obtain ⟨node, hnode, -, hnames⟩ := mem_duplicatesOf (mem_keys hkey) hd
  exact ⟨node, (List.mem_filter.mp hnode).1, hnames⟩

/-- **No node is reported twice.** -/
theorem duplicates_once (h : a.module.body.Parsed) :
    ((a.report.filter fun d => d.code = .duplicateOid).map Diagnostic.pos).Nodup := by
  refine (report_duplicates.map _).nodup_iff.mpr ?_
  rw [List.map_flatMap, List.nodup_flatMap]
  constructor
  · intro key hkey
    have hplace : ∀ node ∈ (a.byOid key).tail, node.oid.map Ast.Oid.pos =
        some ((node.oid.map Ast.Oid.pos).getD ⟨0, 0⟩) := by
      intro node hnode
      obtain ⟨oid, hoid⟩ := oid_of_mem_byOid (mem_keys hkey) (List.mem_of_mem_tail hnode)
      rw [hoid]
      rfl
    have hpos : (a.duplicatesOf key).map Diagnostic.pos =
        (a.byOid key).tail.filterMap fun n => n.oid.map Ast.Oid.pos := by
      rw [List.filterMap_congr hplace, List.filterMap_eq_map']
      exact List.map_map
    rw [hpos]
    exact ((List.tail_sublist _).trans List.filter_sublist).filterMap _ |>.nodup h.places
  · refine (List.Perm.nodup_iff (List.perm_insertionSort _ _)).mpr (List.nodup_dedup _) |>.imp_of_mem ?_
    intro k k' hk hk' hne
    refine List.disjoint_left.mpr fun p hp hp' => hne ?_
    obtain ⟨d, hd, rfl⟩ := List.mem_map.mp hp
    obtain ⟨d', hd', hpos⟩ := List.mem_map.mp hp'
    obtain ⟨node, hnode, -, -, oid, hoid, hplace⟩ := mem_duplicatesOf (mem_keys hk) hd
    obtain ⟨node', hnode', -, -, oid', hoid', hplace'⟩ := mem_duplicatesOf (mem_keys hk') hd'
    obtain ⟨hmem, hkey⟩ := List.mem_filter.mp hnode
    obtain ⟨hmem', hkey'⟩ := List.mem_filter.mp hnode'
    obtain ⟨l, r, hsplit⟩ := List.append_of_mem hmem
    obtain ⟨l', r', hsplit'⟩ := List.append_of_mem hmem'
    have hplaces := h.places
    rw [hsplit] at hplaces
    have hfront := split_unique hplaces (hsplit.symm.trans hsplit')
      (show node.oid.map Ast.Oid.pos = some oid.pos by rw [hoid]; rfl)
      (show node'.oid.map Ast.Oid.pos = some oid.pos by
        rw [hoid', ← hplace, ← hpos, hplace']
        rfl)
    subst hfront
    obtain ⟨rfl, -⟩ := List.cons.inj (List.append_cancel_left (hsplit.symm.trans hsplit'))
    rw [← beq_iff_eq.mp hkey, ← beq_iff_eq.mp hkey']

/-- The duplicates are reported exactly: a node is named when the module identity or a node before
it has its full identifier, and nothing else is named, and nothing twice. -/
structure Exact (a : Analysis) : Prop where
  named : ∀ front node behind oid, a.module.body.nodes = front ++ node :: behind →
    node.oid = some oid →
      ((∃ d ∈ a.report, d.code = .duplicateOid ∧ Names d node) ↔ Repeats a.module.body front oid)
  only : ∀ d ∈ a.report, d.code = .duplicateOid → ∃ node ∈ a.module.body.nodes, Names d node
  once : ((a.report.filter fun d => d.code = .duplicateOid).map Diagnostic.pos).Nodup

/-- What has an identifier for the second time is written like a node before it, and what is written
like a node before it has an identifier: its parents do not run in a circle. -/
structure RepeatsAlike (b : Ast.Body) : Prop where
  written : ∀ front node behind oid, b.nodes = front ++ node :: behind → node.oid = some oid →
    Repeats b front oid → WrittenLike front oid
  rooted : ∀ front node behind oid, b.nodes = front ++ node :: behind → node.oid = some oid →
    WrittenLike front oid → ∃ full, FullOid (b.definedBy b.nodes) oid.arcs full

/-- **Duplicates are reported exactly** in the texts where they are written alike, and in no
others. -/
theorem duplicates_exact_iff (h : a.module.body.Parsed) : Exact a ↔ RepeatsAlike a.module.body := by
  constructor
  · intro hexact
    refine ⟨fun front node behind oid hnodes hoid hrepeats => ?_,
      fun front node behind oid hnodes hoid hlike => ?_⟩
    · exact (reported_iff h hnodes hoid).mp ((hexact.named _ _ _ _ hnodes hoid).mpr hrepeats)
    · obtain ⟨_, _, full, -, hfull⟩ :=
        (hexact.named _ _ _ _ hnodes hoid).mp ((reported_iff h hnodes hoid).mpr hlike)
      exact ⟨full, hfull⟩
  · intro halike
    refine ⟨fun front node behind oid hnodes hoid => ?_, fun d hd => duplicates_name hd,
      duplicates_once h⟩
    rw [reported_iff h hnodes hoid]
    constructor
    · intro hlike
      obtain ⟨full, hfull⟩ := halike.rooted _ _ _ _ hnodes hoid hlike
      obtain ⟨earlier, hearlier, oid', hoid', harcs⟩ := hlike
      -- What is written alike expands alike.
      refine ⟨⟨earlier.name, oid'.arcs⟩, ?_, full, by rwa [harcs], hfull⟩
      refine List.mem_append_right _ (List.mem_filterMap.mpr ⟨earlier, hearlier, ?_⟩)
      rw [Ast.Node.definition, hoid']
      rfl
    · exact halike.written _ _ _ _ hnodes hoid

/-! ## Two texts -/

/-- What an expansion begins with. -/
theorem FullOid.inversion {defs : List Definition} {arcs full : List Arc}
    (h : FullOid defs arcs full) :
    ((∀ d ∈ defs, arcs.head? ≠ some (.name d.name)) ∧ full = arcs) ∨
      ∃ d ∈ defs, arcs.head? = some (.name d.name) ∧
        ∃ oid, FullOid defs d.arcs oid ∧ full = oid ++ arcs.tail := by
  cases h with
  | outside h => exact .inl ⟨h, rfl⟩
  | under hd h => exact .inr ⟨_, hd, rfl, _, h, rfl⟩

/-- A node on a line of its own. -/
def nodeAt (line : Nat) (name : String) (parent : String) (arcs : List Ast.SubIdentifier) :
    Ast.Node where
  pos := ⟨line, 1⟩
  name := octets name
  oid := some ⟨⟨line, 30⟩, ⟨some (octets parent), none⟩ :: arcs⟩

/-- The text with three nodes, the third written as it may be. -/
def threeNodes (third : Ast.Node) : Analysis where
  module :=
    { name := octets "ACME-MIB"
      body :=
        { nodes := [nodeAt 1 "acme" "enterprises" [⟨none, some 1⟩],
            nodeAt 2 "power" "acme" [⟨none, some 1⟩], third] } }
  cat := ⟨[], []⟩
  rawSource := []
  quote := id

theorem isIdent_of {s : Octets} (h : s.head?.any isIdentStart = true ∧ s.all isIdentPart = true) :
    IsIdent s := by
  cases s with
  | nil => exact absurd h.1 (by decide)
  | cons b rest =>
      exact ⟨b, rest, rfl, h.1, fun c hc => List.all_eq_true.mp h.2 c (List.mem_cons_of_mem _ hc)⟩

/-- `{ acme power(1) }` behind `{ acme 1 }`. -/
theorem alike_reported :
    Exact (threeNodes (nodeAt 3 "energy" "acme" [⟨some (octets "power"), some 1⟩])) := by
  have hacme : IsIdent (octets "acme") := isIdent_of (by decide)
  have henterprises : IsIdent (octets "enterprises") := isIdent_of (by decide)
  have hpower : IsIdent (octets "power") := isIdent_of (by decide)
  have hparsed : (threeNodes
      (nodeAt 3 "energy" "acme" [⟨some (octets "power"), some 1⟩])).module.body.Parsed := by
    refine ⟨fun node hnode oid hoid => ?_, by decide⟩
    simp only [threeNodes, List.mem_cons, List.not_mem_nil, or_false] at hnode
    rcases hnode with rfl | rfl | rfl
    all_goals
      obtain rfl := Option.some.inj hoid
      refine ⟨List.cons_ne_nil _ _, ?_⟩
      simp [hacme, henterprises, hpower]
  let defs : List Definition :=
    [⟨octets "acme", [.name (octets "enterprises"), .number 1]⟩,
      ⟨octets "power", [.name (octets "acme"), .number 1]⟩,
      ⟨octets "energy", [.name (octets "acme"), .number 1]⟩]
  have hroot : FullOid defs [.name (octets "enterprises"), .number 1]
      [.name (octets "enterprises"), .number 1] := .outside (by decide)
  have hbelow : FullOid defs [.name (octets "acme"), .number 1]
      ([.name (octets "enterprises"), .number 1] ++ [.number 1]) :=
    .under (d := ⟨octets "acme", [.name (octets "enterprises"), .number 1]⟩) (by decide) hroot
  refine (duplicates_exact_iff hparsed).mpr
    ⟨fun front node behind oid hnodes hoid hrepeats => ?_,
      fun front node behind oid hnodes hoid _ => ?_⟩
  · rcases front with _ | ⟨x, _ | ⟨y, _ | ⟨z, front⟩⟩⟩
    · -- Nothing stands before the first node.
      obtain ⟨d, hd, -⟩ := hrepeats
      exact absurd hd List.not_mem_nil
    · obtain ⟨rfl, htail⟩ := List.cons.inj hnodes
      obtain ⟨rfl, -⟩ := List.cons.inj htail
      obtain rfl := Option.some.inj hoid
      obtain ⟨d, hd, full, hfirst, hsecond⟩ := hrepeats
      obtain rfl := List.mem_singleton.mp hd
      have houtside : ∀ d ∈ defs, (Arc.name (octets "enterprises")) ≠ .name d.name := by decide
      have hone : ∀ full, FullOid defs [.name (octets "enterprises"), .number 1] full →
          full.length = 2 := by
        intro full hfull
        rcases hfull.inversion with ⟨-, rfl⟩ | ⟨d, hd, hhead, -⟩
        · rfl
        · exact absurd (Option.some.inj hhead) (houtside d hd)
      -- The second node is one arc longer than the first.
      rcases hsecond.inversion with ⟨hnot, -⟩ | ⟨d, hd, hhead, oid, hoid, rfl⟩
      · exact absurd rfl (hnot ⟨octets "acme", _⟩ List.mem_cons_self)
      · have hacmeOnly : ∀ d ∈ defs, Arc.name (octets "acme") = .name d.name →
            d = ⟨octets "acme", [.name (octets "enterprises"), .number 1]⟩ := by decide
        obtain rfl := hacmeOnly d hd (Option.some.inj hhead)
        have hlong := hone _ hfirst
        rw [List.length_append, hone _ hoid] at hlong
        cases hlong
    · obtain ⟨-, htail⟩ := List.cons.inj hnodes
      obtain ⟨hsecond, htail⟩ := List.cons.inj htail
      obtain ⟨hthird, -⟩ := List.cons.inj htail
      rw [← hthird] at hoid
      obtain rfl := Option.some.inj hoid
      rw [← hsecond]
      exact ⟨_, List.mem_cons_of_mem _ List.mem_cons_self, _, rfl, rfl⟩
    · have hlen := congrArg List.length hnodes
      simp [threeNodes] at hlen
  · have hnode : node ∈ (threeNodes (nodeAt 3 "energy" "acme"
        [⟨some (octets "power"), some 1⟩])).module.body.nodes :=
      hnodes ▸ List.mem_append_right _ List.mem_cons_self
    simp only [threeNodes, List.mem_cons, List.not_mem_nil, or_false] at hnode
    rcases hnode with rfl | rfl | rfl
    all_goals obtain rfl := Option.some.inj hoid
    · exact ⟨_, hroot⟩
    · exact ⟨_, hbelow⟩
    · exact ⟨_, hbelow⟩

/-- `{ enterprises 1 1 }` behind `{ acme 1 }`, `acme` being `{ enterprises 1 }`. -/
theorem two_arcs_unreported :
    ¬ Exact (threeNodes (nodeAt 3 "energy" "enterprises" [⟨none, some 1⟩, ⟨none, some 1⟩])) := by
  intro h
  have hnone : ∀ d ∈ (threeNodes (nodeAt 3 "energy" "enterprises"
      [⟨none, some 1⟩, ⟨none, some 1⟩])).report, d.code ≠ .duplicateOid := by decide
  have hfull : Repeats (threeNodes (nodeAt 3 "energy" "enterprises"
      [⟨none, some 1⟩, ⟨none, some 1⟩])).module.body
      [nodeAt 1 "acme" "enterprises" [⟨none, some 1⟩], nodeAt 2 "power" "acme" [⟨none, some 1⟩]]
      ⟨⟨3, 30⟩, [⟨some (octets "enterprises"), none⟩, ⟨none, some 1⟩, ⟨none, some 1⟩]⟩ := by
    refine ⟨⟨octets "power", [.name (octets "acme"), .number 1]⟩, by decide,
      [.name (octets "enterprises"), .number 1, .number 1], ?_, .outside (by decide)⟩
    exact .under (d := ⟨octets "acme", [.name (octets "enterprises"), .number 1]⟩) (by decide)
      (.outside (by decide))
  obtain ⟨d, hd, hcode, -⟩ := (h.named _ _ [] _ rfl rfl).mpr hfull
  exact hnone d hd hcode

end SnmpLens.Mib
