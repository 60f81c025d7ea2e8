import Mathlib.Algebra.Group.Int.Defs
import Mathlib.Data.List.Sort
import SnmpLens.Lib.Cursor
import SnmpLens.Lib.Netip
import SnmpLens.Lib.Search
import SnmpLens.Simulator.Oid

/-!
# A device's objects, in the order an agent walks them

`pkg/simulator/tree.go`. The entries are kept strictly increasing, and none of them
is the prefix of another: an instance is a leaf. Both are one relation between
neighbours, `Prefix.Before`, and every operation that changes the entries is checked
against it.
-/

namespace SnmpLens.Simulator

open Utf8 Prefix

/-- `gosnmp.Asn1BER`. -/
inductive Asn1BER where
  | integer
  | octetString
  | objectIdentifier
  | ipAddress
  | counter32
  | gauge32
  | timeTicks
  | opaque_
  | counter64
  | other (tag : Nat)
deriving DecidableEq, Repr

/-- A Go value under `any`, by the types a varbind comes with. -/
inductive Value where
  | int (n : Int)
  | uint32 (n : Nat)
  | uint64 (n : Nat)
  | str (s : Octets)
  | bytes (b : Octets)
  | other
deriving DecidableEq, Repr

/-- `checkValue`: whether a value can be sent as `t`. -/
def checkValue (t : Asn1BER) (v : Value) : Bool :=
  match t, v with
  | .integer, .int n => -2 ^ 31 ≤ n && n < 2 ^ 31
  | .octetString, .str _ => true
  | .octetString, .bytes _ => true
  | .opaque_, .str _ => true
  | .opaque_, .bytes _ => true
  | .objectIdentifier, .str s => (parseOID s).isOk
  | .ipAddress, .str s =>
      match Netip.parseAddr (text s).toList with
      | some (.v4 _) => true
      | _ => false
  | .counter32, .uint32 _ => true
  | .gauge32, .uint32 _ => true
  | .timeTicks, .uint32 _ => true
  | .counter64, .uint64 _ => true
  | _, _ => false

/-- `Reading`: what an object answers, from a clock, and whether that can be sent as a type. -/
structure Reading (κ : Type) where
  read : κ → Value
  check : Asn1BER → Bool

def const (κ : Type) (v : Value) : Reading κ where
  read := fun _ => v
  check := fun t => checkValue t v

structure Object (κ : Type) where
  oid : Octets
  type : Asn1BER
  value : Option (Reading κ)
  notifyOnly : Bool := false

structure Entry (κ : Type) where
  oid : Oid
  /-- The OID as a varbind is named. -/
  name : Octets
  typ : Asn1BER
  val : Reading κ

structure Tree (κ : Type) where
  entries : List (Entry κ)
  /-- The object each instance belongs to: its OID less the last arc. -/
  objects : List Octets
  /-- By name, the objects only a notification reads. -/
  notifyOnly : List (Octets × Entry κ)

/-- Why no tree is made. -/
inductive TreeError where
  | oid (err : OidError)
  | noValue (id : Oid)
  | check (id : Oid)
  | declaredTwice (id : Oid)
  /-- An instance is a leaf: one under another is a tree no agent has. -/
  | liesUnder (cur prev : Oid)
deriving DecidableEq, Repr

namespace Tree

variable {κ : Type}

/-! ## Looking up -/

/-- `find`: where `o` is, or would be, among the entries. -/
def find (entries : List (Entry κ)) (o : Oid) : Nat × Bool :=
  let i := Search.search (fun e => e.oid.compare o == .lt) entries
  (i, (entries[i]?).any fun e => e.oid.compare o == .eq)

def get (t : Tree κ) (o : Oid) : Option (Entry κ) :=
  let (i, found) := find t.entries o
  if found then t.entries[i]? else none

/-- `next`: the first object after `o` that `skip` does not refuse. -/
def next (entries : List (Entry κ)) (o : Oid) (skip : Option (Entry κ → Bool)) :
    Option (Entry κ) :=
  let (i, found) := find entries o
  let i := if found then i + 1 else i
  (entries.drop i).find? fun e =>
    match skip with
    | none => true
    | some skip => !skip e

/-- `placeable`: whether an instance could be made at `o`. -/
def placeable (t : Tree κ) (o : Oid) : Bool :=
  let (i, found) := find t.entries o
  if found then false
  else if (t.entries[i]?).any fun e => e.oid.hasPrefix o then false
  else if 0 < i && (t.entries[i - 1]?).any fun e => o.hasPrefix e.oid then false
  else true

/-! ## Making a tree -/

/-- The loop of `newTree` over the objects. -/
def collect (t : Tree κ) : List (Object κ) → Except TreeError (Tree κ)
  | [] => .ok t
  | o :: rest =>
      match parseOID o.oid with
      | .error err => .error (.oid err)
      | .ok id =>
          match o.value with
          | none => .error (.noValue id)
          | some value =>
              if !value.check o.type then .error (.check id)
              else
                let e : Entry κ := { oid := id, name := id.string, typ := o.type, val := value }
                if o.notifyOnly then
                  if (t.notifyOnly.lookup e.name).isSome then .error (.declaredTwice id)
                  else collect { t with notifyOnly := t.notifyOnly ++ [(e.name, e)] } rest
                else
                  collect { t with
                    entries := t.entries ++ [e]
                    objects := Oid.string id.dropLast :: t.objects } rest

/-- The loop over neighbours. -/
def leaves : List (Entry κ) → Except TreeError Unit
  | prev :: cur :: rest =>
      if prev.oid = cur.oid then .error (.declaredTwice cur.oid)
      else if cur.oid.hasPrefix prev.oid then .error (.liesUnder cur.oid prev.oid)
      else leaves (cur :: rest)
  | _ => .ok ()

/-- The loop over what only a notification reads. -/
def notDeclared (entries : List (Entry κ)) : List (Octets × Entry κ) → Except TreeError Unit
  | [] => .ok ()
  | (_, e) :: rest =>
      if (find entries e.oid).2 then .error (.declaredTwice e.oid) else notDeclared entries rest

/-- What `slices.SortFunc` sorts by. -/
def inOrder (a b : Entry κ) : Prop := a.oid.compare b.oid ≠ .gt

instance : DecidableRel (inOrder (κ := κ)) := fun _ _ => inferInstanceAs (Decidable (_ ≠ _))

/-- `newTree`. Entries that compare equal are refused, so how they are sorted makes no difference. -/
def newTree (objects : List (Object κ)) : Except TreeError (Tree κ) := do
  let t ← collect { entries := [], objects := [], notifyOnly := [] } objects
  let t := { t with entries := t.entries.insertionSort inOrder }
  leaves t.entries
  notDeclared t.entries t.notifyOnly
  return t

/-! ## The law -/

/-- Strictly increasing, and no entry's OID is a prefix of another's. -/
structure Ordered (entries : List (Entry κ)) : Prop where
  increasing : (entries.map Entry.oid).Pairwise (· < ·)
  leaves : ∀ a ∈ entries, ∀ b ∈ entries, a.oid <+: b.oid → a.oid = b.oid

variable {entries : List (Entry κ)}

theorem ordered_iff :
    Ordered entries ↔ (entries.map Entry.oid).Pairwise Before := by
  rw [pairwise_before_iff]
  constructor
  · intro h
    refine ⟨h.increasing, ?_⟩
    simp only [List.mem_map, forall_exists_index, and_imp, forall_apply_eq_imp_iff₂]
    exact h.leaves
  · rintro ⟨hinc, hfree⟩
    exact ⟨hinc, fun a ha b hb => hfree _ (List.mem_map_of_mem ha) _ (List.mem_map_of_mem hb)⟩

/-- What every entry in between must be for binary search to be any good. -/
def Sorted (entries : List (Entry κ)) : Prop := (entries.map Entry.oid).Pairwise (· < ·)

/-- **Where `find` finds an OID**, in entries that are sorted: in front of it everything is less,
and behind it nothing is. -/
theorem find_eq (hs : Sorted entries) (o : Oid) :
    ∃ front back, entries = front ++ back ∧ (∀ e ∈ front, e.oid < o) ∧ (∀ e ∈ back, o ≤ e.oid) ∧
      find entries o = (front.length, back.head?.any fun e => e.oid == o) := by
  have hpair : entries.Pairwise fun x y =>
      (y.oid.compare o == .lt) = true → (x.oid.compare o == .lt) = true := by
    refine (List.pairwise_map.mp hs).imp fun hlt h => ?_
    rw [beq_iff_eq, Oid.compare_lt_iff] at h ⊢
    exact hlt.trans h
  obtain ⟨front, back, rfl, hf, hb⟩ := Search.split_of_pairwise hpair
  refine ⟨front, back, rfl, ?_, ?_, ?_⟩
  · intro e he
    exact Oid.compare_lt_iff.mp (beq_iff_eq.mp (hf e he))
  · intro e he
    refine not_lt.mp fun hlt => ?_
    have := hb e he
    rw [Oid.compare_lt_iff.mpr hlt] at this
    cases this
  · unfold find
    rw [Search.search_eq (Search.cutAt_append hf hb)]
    have hget : (front ++ back)[front.length]? = back.head? := by
      rw [List.getElem?_append_right (Nat.le_refl _), Nat.sub_self, List.head?_eq_getElem?]
    dsimp only
    rw [hget]
    congr 2
    funext e
    rw [Bool.eq_iff_iff, beq_iff_eq, beq_iff_eq, Oid.compare_eq_iff]

/-- What is not refused by `skip`. -/
def seen (entries : List (Entry κ)) (skip : Option (Entry κ → Bool)) : List (Entry κ) :=
  entries.filter fun e =>
    match skip with
    | none => true
    | some skip => !skip e

theorem sorted_seen (hs : Sorted entries) (skip : Option (Entry κ → Bool)) :
    Sorted (seen entries skip) :=
  hs.sublist (List.filter_sublist.map _)

/-- **`next` is the first object behind `o`**, whether or not `o` is one. -/
theorem next_eq (hs : Sorted entries) (o : Oid) (skip : Option (Entry κ → Bool)) :
    next entries o skip = (Cursor.after Entry.oid (seen entries skip) o).head? := by
  obtain ⟨front, back, rfl, hf, hb, hfind⟩ := find_eq hs o
  unfold next seen
  rw [hfind, Cursor.after_filter, List.head?_filter, Cursor.after_append,
    Cursor.after_eq_nil fun e he => (hf e he).le, List.nil_append]
  dsimp only
  cases back with
  | nil => simp [Cursor.after]
  | cons x rest =>
      unfold Sorted at hs
      rw [List.map_append] at hs
      have hinc := (List.pairwise_append.mp hs).2.1
      have hrest : ∀ e ∈ rest, x.oid < e.oid :=
        fun e he => (List.pairwise_cons.mp hinc).1 _ (List.mem_map_of_mem he)
      by_cases hxo : x.oid = o
      · -- `o` itself is passed
        have hself : Cursor.after Entry.oid (x :: rest) o = rest := by
          rw [← List.singleton_append, Cursor.after_append,
            Cursor.after_eq_nil (by simp [hxo]), List.nil_append]
          exact Cursor.after_eq_self fun e he => hxo ▸ hrest e he
        rw [if_pos (by simpa using hxo), ← List.drop_drop, List.drop_left, List.drop_one,
          List.tail_cons, hself]
      · have hlt : o < x.oid := lt_of_le_of_ne (hb x List.mem_cons_self) (Ne.symm hxo)
        have hall : Cursor.after Entry.oid (x :: rest) o = x :: rest := by
          refine Cursor.after_eq_self fun e he => ?_
          rcases List.mem_cons.mp he with rfl | he
          · exact hlt
          · exact hlt.trans (hrest e he)
        rw [if_neg (by simpa using hxo), List.drop_left, hall]

theorem found_iff (hs : Sorted entries) (o : Oid) :
    (find entries o).2 = true ↔ o ∈ entries.map Entry.oid := by
  obtain ⟨front, back, rfl, hf, hb, hfind⟩ := find_eq hs o
  rw [hfind, List.map_append, List.mem_append]
  constructor
  · intro h
    cases back with
    | nil => cases h
    | cons x rest =>
        obtain rfl : x.oid = o := by simpa using h
        exact .inr List.mem_cons_self
  · rintro (h | h)
    · obtain ⟨e, he, rfl⟩ := List.mem_map.mp h
      exact absurd rfl (hf e he).ne
    · obtain ⟨e, he, rfl⟩ := List.mem_map.mp h
      cases back with
      | nil => cases he
      | cons x rest =>
          rcases List.mem_cons.mp he with rfl | he
          · simp
          · unfold Sorted at hs
            rw [List.map_append, List.map_cons] at hs
            have hinc := (List.pairwise_append.mp hs).2.1
            have hlt := (List.pairwise_cons.mp hinc).1 _ (List.mem_map_of_mem he)
            exact absurd (hb x List.mem_cons_self) (not_le.mpr hlt)

/-! ## `newTree` -/

theorem before_of_leaves {u : Unit} (h : leaves entries = .ok u)
    (hle : (entries.map Entry.oid).Pairwise (· ≤ ·)) :
    (entries.map Entry.oid).Pairwise Before := by
  rw [← List.isChain_iff_pairwise]
  induction entries with
  | nil => exact .nil
  | cons prev rest ih =>
      cases rest with
      | nil => exact .singleton _
      | cons cur rest =>
          unfold leaves at h
          split at h
          · cases h
          · rename_i hne
            split at h
            · cases h
            · rename_i hnp
              have hpc := (List.pairwise_cons.mp hle).1 cur.oid (by simp)
              have hlt : prev.oid < cur.oid := lt_of_le_of_ne hpc hne
              have hbefore : Before prev.oid cur.oid :=
                ⟨hlt, fun hp => hnp (Oid.hasPrefix_iff.mpr hp)⟩
              exact .cons_cons hbefore (ih h (List.pairwise_cons.mp hle).2)

theorem sorted_le (entries : List (Entry κ)) :
    ((entries.insertionSort inOrder).map Entry.oid).Pairwise (· ≤ ·) := by
  have : Std.Total (inOrder (κ := κ)) := ⟨fun a b => by
    unfold inOrder
    rw [Oid.compare_ne_gt_iff, Oid.compare_ne_gt_iff]
    exact le_total _ _⟩
  have : IsTrans (Entry κ) inOrder := ⟨fun a b c => by
    unfold inOrder
    rw [Oid.compare_ne_gt_iff, Oid.compare_ne_gt_iff, Oid.compare_ne_gt_iff]
    exact le_trans⟩
  refine List.pairwise_map.mpr ((List.pairwise_insertionSort inOrder entries).imp ?_)
  intro a b hab
  exact Oid.compare_ne_gt_iff.mp hab

variable {objects : List (Object κ)}

/-- **A tree that is accepted is in order.** -/
theorem ordered_newTree {t : Tree κ} (h : newTree objects = .ok t) :
    Ordered t.entries := by
  rw [ordered_iff]
  unfold newTree at h
  cases hc : collect ({ entries := [], objects := [], notifyOnly := [] } : Tree κ) objects with
  | error err =>
      rw [hc] at h
      exact absurd h (by simp [bind, Except.bind])
  | ok t0 =>
      rw [hc] at h
      simp only [bind, Except.bind] at h
      split at h
      · cases h
      · rename_i u hl
        split at h
        · cases h
        · obtain rfl := Except.ok.inj h
          exact before_of_leaves hl (sorted_le t0.entries)

/-- Every entry is named by its OID, and a name can carry it. -/
def Named (entries : List (Entry κ)) : Prop :=
  ∀ e ∈ entries, e.oid.Fits ∧ e.name = e.oid.string

/-- What holds of an agent's tree whatever it is told. -/
structure WellFormed (t : Tree κ) : Prop where
  ordered : Ordered t.entries
  named : Named t.entries

theorem named_collect {t t' : Tree κ} (ht : Named t.entries) (h : collect t objects = .ok t') :
    Named t'.entries := by
  induction objects generalizing t with
  | nil => exact Except.ok.inj h ▸ ht
  | cons o rest ih =>
      unfold collect at h
      split at h
      · cases h
      · rename_i id hid
        split at h
        · cases h
        · split at h
          · cases h
          · dsimp only at h
            split at h
            · split at h
              · cases h
              · exact ih (by exact ht) h
            · refine ih ?_ h
              intro e he
              rcases List.mem_append.mp he with he | he
              · exact ht e he
              · obtain rfl := List.mem_singleton.mp he
                exact ⟨Oid.fits_of_parseArcs (Oid.parseArcs_of_parseOID hid), rfl⟩

theorem wellFormed_newTree {t : Tree κ} (h : newTree objects = .ok t) : t.WellFormed := by
  refine ⟨ordered_newTree h, ?_⟩
  unfold newTree at h
  cases hc : collect ({ entries := [], objects := [], notifyOnly := [] } : Tree κ) objects with
  | error err =>
      rw [hc] at h
      exact absurd h (by simp [bind, Except.bind])
  | ok t0 =>
      rw [hc] at h
      simp only [bind, Except.bind] at h
      split at h
      · cases h
      · split at h
        · cases h
        · obtain rfl := Except.ok.inj h
          intro e he
          exact named_collect (fun _ he => absurd he (by simp)) hc e
            ((List.mem_insertionSort inOrder).mp he)

/-! ## `placeable` -/

/-- `slices.Insert`. -/
def insertAt (entries : List (Entry κ)) (i : Nat) (e : Entry κ) : List (Entry κ) :=
  entries.take i ++ e :: entries.drop i

/-- **An OID is placeable exactly when an entry put there keeps the law.** -/
theorem placeable_iff {t : Tree κ} (h : Ordered t.entries) (e : Entry κ) :
    t.placeable e.oid = true ↔
      Ordered (insertAt t.entries (find t.entries e.oid).1 e) := by
  obtain ⟨front, back, hsplit, hf, hb, hfind⟩ := find_eq h.increasing e.oid
  have hins : insertAt t.entries front.length e = front ++ e :: back := by
    unfold insertAt
    rw [hsplit, List.take_left, List.drop_left]
  have hpw := ordered_iff.mp h
  rw [hsplit, List.map_append] at hpw
  have hneighbours := pairwise_insert_iff (o := e.oid) hpw
    (by simpa using hf) (by simpa using hb)
  rw [hfind, hins, ordered_iff, List.map_append, List.map_cons, hneighbours]
  have hat : t.entries[front.length]? = back.head? := by
    rw [hsplit, List.getElem?_append_right (Nat.le_refl _), Nat.sub_self, List.head?_eq_getElem?]
  have hbefore : (0 < front.length && (t.entries[front.length - 1]?).any fun x =>
      e.oid.hasPrefix x.oid) = front.getLast?.any fun x => e.oid.hasPrefix x.oid := by
    rcases List.eq_nil_or_concat front with rfl | ⟨init, x, rfl⟩
    · simp
    · rw [hsplit, List.concat_eq_append]
      simp
  unfold placeable
  rw [hfind]
  dsimp only
  rw [hat, hbefore, List.getLast?_map, List.head?_map]
  have hlast : (front.getLast?.any fun x => e.oid.hasPrefix x.oid) = false ↔
      ∀ a ∈ front.getLast?.map Entry.oid, ¬ a <+: e.oid := by
    cases front.getLast? <;> simp [← Oid.hasPrefix_iff]
  have hhead : ((back.head?.any fun x => x.oid == e.oid) = false ∧
      (back.head?.any fun x => x.oid.hasPrefix e.oid) = false) ↔
      ∀ a ∈ back.head?.map Entry.oid, e.oid ≠ a ∧ ¬ e.oid <+: a := by
    cases back.head? with
    | none => simp
    | some x =>
        have hne : (x.oid == e.oid) = false ↔ e.oid ≠ x.oid := by
          rw [beq_eq_false_iff_ne]
          exact ⟨Ne.symm, Ne.symm⟩
        have hnp : x.oid.hasPrefix e.oid = false ↔ ¬ e.oid <+: x.oid := by
          rw [← Oid.hasPrefix_iff, Bool.not_eq_true]
        rw [Option.any_some, Option.any_some, hne, hnp]
        simp
  rw [← hlast, ← hhead]
  cases back.head?.any fun x => x.oid == e.oid <;>
    cases back.head?.any fun x => x.oid.hasPrefix e.oid <;>
    cases front.getLast?.any fun x => e.oid.hasPrefix x.oid <;> decide

end Tree

end SnmpLens.Simulator
