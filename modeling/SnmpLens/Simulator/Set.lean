import SnmpLens.Simulator.Tree

/-!
# A device written to

`pkg/simulator/set.go`. Every varbind of a SET is checked against the tree as it was,
and then all the changes are applied at once, or none of them. What `placeable` said
of each of them need not hold of all of them together, so the tree that comes out is
checked once more before it is stored.
-/

namespace SnmpLens.Simulator

open Utf8 Prefix

/-! ## Requests and answers -/

/-- `gosnmp.SNMPError`. -/
inductive SNMPError where
  | noError
  | tooBig
  | noSuchName
  | badValue
  | readOnly
  | genErr
  | noAccess
  | wrongType
  | wrongLength
  | wrongEncoding
  | wrongValue
  | noCreation
  | inconsistentValue
  | resourceUnavailable
  | commitFailed
  | undoFailed
  | authorizationError
  | notWritable
  | inconsistentName
deriving DecidableEq, Repr

inductive Version where
  | v1
  | v2c
  | v3
deriving DecidableEq, Repr

/-- `gosnmp.SnmpPDU`. -/
structure Varbind where
  name : Octets
  type : Asn1BER
  value : Value
deriving DecidableEq, Repr

structure Answer where
  vars : List Varbind
  status : SNMPError := .noError
  index : Nat := 0
deriving DecidableEq, Repr

/-- `v1Status`: an SNMPv2 error as an SNMPv1 agent answers it. -/
def v1Status : SNMPError → SNMPError
  | .wrongValue | .wrongEncoding | .wrongType | .wrongLength | .inconsistentValue => .badValue
  | .noAccess | .notWritable | .noCreation | .inconsistentName | .authorizationError => .noSuchName
  | .resourceUnavailable | .commitFailed | .undoFailed => .genErr
  | s => s

def errIndex (i n : Nat) : Nat := if n = 0 then 0 else min (i + 1) 255

/-- `Agent`, as far as a SET looks at it. `rowStatus` names the RowStatus column an instance is
in, where the agent has been told. -/
structure Agent (κ : Type) where
  tree : Tree κ
  rowStatus : Option (Octets → Option Octets)

/-- `change`: one varbind, checked and ready to apply. -/
inductive Change where
  | write (id : Oid) (typ : Asn1BER) (val : Value)
  /-- Every instance under `entry` whose index is `index` goes. -/
  | destroy (entry index : Oid)
deriving DecidableEq, Repr

/-! ## Checking -/

/-- `agentSubtrees`: the `snmp` group and `snmpModules`. -/
def agentSubtrees : List Oid := [[1, 3, 6, 1, 2, 1, 11], [1, 3, 6, 1, 6, 3]]

def rowActive : Int := 1
def rowNotInService : Int := 2
def rowCreateAndGo : Int := 4
def rowCreateAndWait : Int := 5
def rowDestroy : Int := 6

/-- `rowStatus`: what a RowStatus is set to, or the error the RFC answers instead. -/
def rowStatus (present : Bool) (asked : Int) : Except SNMPError Int :=
  if asked = rowCreateAndGo ∨ asked = rowCreateAndWait then
    if present then .error .inconsistentValue
    else if asked = rowCreateAndGo then .ok rowActive
    else .ok rowNotInService
  else if asked = rowActive ∨ asked = rowNotInService then
    if present then .ok asked else .error .inconsistentValue
  else if asked = rowDestroy then .ok rowDestroy
  -- notReady is the agent's to say
  else .error .wrongValue

/-- `setValue`, with the numbers as `gosnmp.ToBigInt` reads them. -/
def setValue (toBigInt : Value → Int) (t : Asn1BER) (v : Value) : Except SNMPError Value := do
  let out : Value ←
    match t with
    | .integer =>
        let n := toBigInt v
        if n < -2 ^ 31 ∨ 2 ^ 31 ≤ n then .error .wrongValue else .ok (.int n)
    | .octetString | .opaque_ =>
        match v with
        | .bytes b => .ok (.bytes b)
        | .str s => .ok (.bytes s)
        | _ => .error .wrongValue
    | .objectIdentifier | .ipAddress =>
        match v with
        | .str s => .ok (.str s)
        | _ => .error .wrongValue
    | .counter32 | .gauge32 | .timeTicks =>
        let n := toBigInt v
        if n < 0 ∨ 2 ^ 32 ≤ n then .error .wrongValue else .ok (.uint32 n.toNat)
    | .counter64 =>
        let n := toBigInt v
        if n < 0 ∨ 2 ^ 64 ≤ n then .error .wrongValue else .ok (.uint64 n.toNat)
    | .other _ => .error .wrongType
  if checkValue t out then .ok out else .error .wrongValue

namespace Agent

variable {κ : Type}

def rowStatusColumn (a : Agent κ) (id : Oid) : Option Oid := do
  let rowStatus ← a.rowStatus
  let name ← rowStatus id.string
  match parseOID name with
  | .error _ => none
  | .ok column => if id.length ≤ column.length || !id.hasPrefix column then none else some column

/-- What a checked value becomes: where it is a RowStatus, what the RFC makes of it. -/
def changeOf (a : Agent κ) (id : Oid) (present : Bool) (typ : Asn1BER) (val : Value) :
    Except SNMPError Change :=
  match a.rowStatusColumn id with
  | none => .ok (.write id typ val)
  | some column =>
      match val with
      | .int asked => do
          let next ← Simulator.rowStatus present asked
          if next = rowDestroy then .ok (.destroy column.dropLast (id.drop column.length))
          else .ok (.write id typ (.int next))
      | _ => .error .wrongType

/-- One varbind against the tree as it is. -/
def checkVarbind (toBigInt : Value → Int) (a : Agent κ) (v : Varbind) :
    Except SNMPError Change :=
  match parseArcs v.name with
  | .error _ => .error .noCreation
  | .ok id =>
      if id.length < 2 then .error .noCreation
      else if agentSubtrees.any id.hasPrefix || (a.tree.notifyOnly.lookup id.string).isSome then
        .error .notWritable
      else
        match a.tree.get id with
        | some e =>
            if v.type ≠ e.typ then .error .wrongType
            else do
              let val ← setValue toBigInt v.type v.value
              a.changeOf id true v.type val
        | none =>
            if !a.tree.placeable id then .error .noCreation
            else do
              let val ← setValue toBigInt v.type v.value
              a.changeOf id false v.type val

/-- The loop over the varbinds, from the `i`-th on. -/
def changes (toBigInt : Value → Int) (a : Agent κ) :
    Nat → List Varbind → Except (Nat × SNMPError) (List Change)
  | _, [] => .ok []
  | i, v :: rest =>
      match a.checkVarbind toBigInt v with
      | .error status => .error (i, status)
      | .ok ch => (a.changes toBigInt (i + 1) rest).map (ch :: ·)

end Agent

/-! ## Applying -/

namespace Tree

variable {κ : Type}

/-- `inRow`: `entry`, then a column, then the index. -/
def inRow (o entry index : Oid) : Bool :=
  o.length == entry.length + 1 + index.length && o.hasPrefix entry
    && o.drop (entry.length + 1) == index

/-- One change, and what it made. -/
def apply (entries : List (Entry κ)) : Change → List (Entry κ) × Option Oid
  | .destroy entry index => (entries.filter fun e => !inRow e.oid entry index, none)
  | .write id typ val =>
      let e : Entry κ := { oid := id, name := id.string, typ, val := const κ val }
      let (i, found) := find entries id
      if found then (entries.set i e, none) else (insertAt entries i e, some id)

/-- The loop over the changes. -/
def applyAll : List (Entry κ) → List Change → List (Entry κ) × List Oid
  | entries, [] => (entries, [])
  | entries, ch :: rest =>
      let (next, made) := apply entries ch
      let (last, more) := applyAll next rest
      (last, made.toList ++ more)

/-- No entry lies under the one before it. -/
def noneUnder : List (Entry κ) → Bool
  | prev :: cur :: rest => !cur.oid.hasPrefix prev.oid && noneUnder (cur :: rest)
  | _ => true

/-- `with`: the tree with the changes applied. -/
def withChanges (t : Tree κ) (changes : List Change) : Option (Tree κ) :=
  let (entries, made) := applyAll t.entries changes
  if noneUnder entries then
    some { t with
      entries
      objects := made.map (fun id => Oid.string id.dropLast) ++ t.objects }
  else none

end Tree

namespace Agent

variable {κ : Type}

/-- `set`: a SET from a manager allowed to write. -/
def set (toBigInt : Value → Int) (a : Agent κ) (ver : Version) (vars : List Varbind) :
    Agent κ × Answer :=
  let fail (i : Nat) (status : SNMPError) : Agent κ × Answer :=
    let status := if ver = .v1 then v1Status status else status
    (a, { vars, status, index := errIndex i vars.length })
  match a.changes toBigInt 0 vars with
  | .error (i, status) => fail i status
  | .ok changes =>
      match a.tree.withChanges changes with
      -- two instances of one SET, one under the other
      | none => fail 0 .noCreation
      | some next => ({ a with tree := next }, { vars })

/-- The requests one after the other. -/
def serve (toBigInt : Value → Int) : Agent κ → List (Version × List Varbind) → Agent κ
  | a, [] => a
  | a, (ver, vars) :: rest => serve toBigInt (a.set toBigInt ver vars).1 rest

end Agent

/-! ## The order is kept -/

namespace Tree

variable {κ : Type} {entries : List (Entry κ)}

/-- The entry a write makes. -/
def entryOf (κ : Type) (id : Oid) (typ : Asn1BER) (val : Value) : Entry κ :=
  { oid := id, name := id.string, typ, val := const κ val }

/-- **Where a write goes**: onto the entry it is about, or between the entries around it. -/
theorem apply_write (hs : Sorted entries) (id : Oid) (typ : Asn1BER) (val : Value) :
    ∃ front back, (∀ e ∈ front, e.oid < id) ∧ (∀ e ∈ back, id < e.oid) ∧
      ((∃ x, x.oid = id ∧ entries = front ++ x :: back ∧
          apply entries (.write id typ val) = (front ++ entryOf κ id typ val :: back, none)) ∨
        entries = front ++ back ∧
          apply entries (.write id typ val) = (front ++ entryOf κ id typ val :: back, some id)) := by
  obtain ⟨front, back, rfl, hf, hb, hfind⟩ := find_eq hs id
  have hinc := hs
  unfold Sorted at hinc
  rw [List.map_append] at hinc
  have hback := (List.pairwise_append.mp hinc).2.1
  unfold apply
  dsimp only
  rw [hfind]
  dsimp only
  cases hfound : back.head?.any fun e => e.oid == id with
  | true =>
      cases back with
      | nil => cases hfound
      | cons x rest =>
          have hx : x.oid = id := by simpa using hfound
          have hrest : ∀ e ∈ rest, id < e.oid :=
            fun e he => hx ▸ (List.pairwise_cons.mp hback).1 _ (List.mem_map_of_mem he)
          refine ⟨front, rest, hf, hrest, .inl ⟨x, hx, rfl, ?_⟩⟩
          rw [if_pos rfl, List.set_append_right _ _ (Nat.le_refl _), Nat.sub_self,
            List.set_cons_zero]
          rfl
  | false =>
      have hbehind : ∀ e ∈ back, id < e.oid := by
        cases back with
        | nil => simp
        | cons x rest =>
            have hne : x.oid ≠ id := by simpa using hfound
            have hx : id < x.oid := lt_of_le_of_ne (hb x List.mem_cons_self) hne.symm
            intro e he
            rcases List.mem_cons.mp he with rfl | he
            · exact hx
            · exact hx.trans ((List.pairwise_cons.mp hback).1 _ (List.mem_map_of_mem he))
      refine ⟨front, back, hf, hbehind, .inr ⟨rfl, ?_⟩⟩
      rw [if_neg (by simp)]
      unfold insertAt
      rw [List.take_left, List.drop_left]
      rfl

/-- A change leaves the entries sorted, whether or not they stay prefix-free. -/
theorem sorted_apply (hs : Sorted entries) (ch : Change) : Sorted (apply entries ch).1 := by
  cases ch with
  | destroy entry index =>
      exact hs.sublist (List.filter_sublist.map _)
  | write id typ val =>
      obtain ⟨front, back, hf, hb, hwhere⟩ := apply_write hs id typ val
      have hsub : (front ++ back).Sublist entries := by
        rcases hwhere with ⟨x, _, rfl, _⟩ | ⟨rfl, _⟩
        · exact (List.sublist_cons_self x back).append_left front
        · exact .refl _
      have happly : (apply entries (.write id typ val)).1
          = front ++ entryOf κ id typ val :: back := by
        rcases hwhere with ⟨_, _, _, heq⟩ | ⟨_, heq⟩ <;> rw [heq]
      have hinc := hs.sublist (hsub.map Entry.oid)
      rw [List.map_append] at hinc
      obtain ⟨hpf, hpb, hcross⟩ := List.pairwise_append.mp hinc
      rw [happly]
      unfold Sorted
      rw [List.map_append, List.map_cons]
      refine List.pairwise_append.mpr ⟨hpf, List.pairwise_cons.mpr ⟨?_, hpb⟩, ?_⟩
      · intro o ho
        obtain ⟨e, he, rfl⟩ := List.mem_map.mp ho
        exact hb e he
      · intro o ho p hp
        rcases List.mem_cons.mp hp with rfl | hp
        · obtain ⟨e, he, rfl⟩ := List.mem_map.mp ho
          exact hf e he
        · exact hcross o ho p hp

theorem sorted_applyAll {changes : List Change} (hs : Sorted entries) :
    Sorted (applyAll entries changes).1 := by
  induction changes generalizing entries with
  | nil => exact hs
  | cons ch rest ih => exact ih (sorted_apply hs ch)

theorem ordered_of_noneUnder (hs : Sorted entries) (h : noneUnder entries = true) :
    Ordered entries := by
  rw [ordered_iff, ← List.isChain_iff_pairwise]
  induction entries with
  | nil => exact .nil
  | cons prev rest ih =>
      cases rest with
      | nil => exact .singleton _
      | cons cur rest =>
          unfold noneUnder at h
          rw [Bool.and_eq_true, Bool.not_eq_true'] at h
          have hlt := (List.pairwise_cons.mp hs).1 cur.oid (by simp)
          have hnp : ¬ prev.oid <+: cur.oid := by
            rw [← Oid.hasPrefix_iff, h.1]
            simp
          exact .cons_cons ⟨hlt, hnp⟩ (ih (List.pairwise_cons.mp hs).2 h.2)

theorem ordered_withChanges {t next : Tree κ} {changes : List Change} (ho : Ordered t.entries)
    (h : t.withChanges changes = some next) : Ordered next.entries := by
  unfold withChanges at h
  dsimp only at h
  split at h
  · rename_i hnone
    obtain rfl := Option.some.inj h
    exact ordered_of_noneUnder (sorted_applyAll ho.increasing) hnone
  · cases h

end Tree

/-! ## The names are kept -/

namespace Agent

variable {κ : Type} {toBigInt : Value → Int}

/-- **What a varbind that is accepted comes to.** -/
theorem checkVarbind_ok {a : Agent κ} {v : Varbind} {ch : Change}
    (h : a.checkVarbind toBigInt v = .ok ch) :
    ∃ id val, parseArcs v.name = .ok id ∧ setValue toBigInt v.type v.value = .ok val ∧
      a.changeOf id (a.tree.get id).isSome v.type val = .ok ch := by
  unfold checkVarbind at h
  split at h
  · cases h
  · rename_i id hid
    split at h
    · cases h
    · split at h
      · cases h
      · split at h
        · rename_i e hget
          split at h
          · cases h
          · cases hval : setValue toBigInt v.type v.value with
            | error status =>
                rw [hval] at h
                exact absurd h (by simp [bind, Except.bind])
            | ok val =>
                rw [hval] at h
                exact ⟨id, val, hid, rfl, by rw [hget]; exact h⟩
        · rename_i hget
          split at h
          · cases h
          · cases hval : setValue toBigInt v.type v.value with
            | error status =>
                rw [hval] at h
                exact absurd h (by simp [bind, Except.bind])
            | ok val =>
                rw [hval] at h
                exact ⟨id, val, hid, rfl, by rw [hget]; exact h⟩

theorem changeOf_ok {a : Agent κ} {id : Oid} {present : Bool} {typ : Asn1BER} {val : Value}
    {ch : Change} (h : a.changeOf id present typ val = .ok ch) :
    (∃ val', ch = .write id typ val') ∨
      ∃ column, a.rowStatusColumn id = some column ∧ val = .int rowDestroy ∧
        ch = .destroy column.dropLast (id.drop column.length) := by
  unfold changeOf at h
  split at h
  · exact .inl ⟨val, (Except.ok.inj h).symm⟩
  · rename_i column hcolumn
    split at h
    · rename_i asked
      cases hnext : Simulator.rowStatus present asked with
      | error status =>
          rw [hnext] at h
          exact absurd h (by simp [bind, Except.bind])
      | ok next =>
          rw [hnext] at h
          simp only [bind, Except.bind] at h
          split at h
          · rename_i hdestroy
            have hasked : asked = rowDestroy := by
              unfold Simulator.rowStatus at hnext
              split at hnext
              · split at hnext
                · cases hnext
                · split at hnext
                  · exact absurd ((Except.ok.inj hnext).trans hdestroy) (by decide)
                  · exact absurd ((Except.ok.inj hnext).trans hdestroy) (by decide)
              · split at hnext
                · split at hnext
                  · exact (Except.ok.inj hnext).trans hdestroy
                  · cases hnext
                · split at hnext
                  · assumption
                  · cases hnext
            exact .inr ⟨column, hcolumn, by rw [hasked], (Except.ok.inj h).symm⟩
          · exact .inl ⟨.int next, (Except.ok.inj h).symm⟩
    · cases h

theorem forall₂_of_changes {a : Agent κ} {i : Nat} {vars : List Varbind} {chs : List Change}
    (h : a.changes toBigInt i vars = .ok chs) :
    List.Forall₂ (fun v ch => a.checkVarbind toBigInt v = .ok ch) vars chs := by
  induction vars generalizing i chs with
  | nil =>
      obtain rfl := Except.ok.inj h
      exact .nil
  | cons v rest ih =>
      unfold changes at h
      split at h
      · cases h
      · rename_i ch hch
        cases hrest : a.changes toBigInt (i + 1) rest with
        | error err =>
            rw [hrest] at h
            exact absurd h (by simp [Except.map])
        | ok more =>
            rw [hrest] at h
            obtain rfl := Except.ok.inj h
            exact .cons hch (ih hrest)

theorem fits_of_changes {a : Agent κ} {i : Nat} {vars : List Varbind} {chs : List Change}
    (h : a.changes toBigInt i vars = .ok chs) {id : Oid} {typ : Asn1BER} {val : Value}
    (hmem : .write id typ val ∈ chs) : id.Fits := by
  obtain ⟨v, _, hv⟩ :=
    @Strings.left_of_forall₂ _ _ (fun v ch => a.checkVarbind toBigInt v = .ok ch) _ _ _
      (forall₂_of_changes h) hmem
  obtain ⟨id', val', hid, _, hch⟩ := checkVarbind_ok hv
  rcases changeOf_ok hch with ⟨val'', heq⟩ | ⟨column, _, _, heq⟩
  · rw [(Change.write.inj heq).1]
    exact Oid.fits_of_parseArcs hid
  · cases heq

end Agent

namespace Tree

variable {κ : Type} {entries : List (Entry κ)}

theorem named_apply (hn : Named entries) {ch : Change}
    (hfits : ∀ id typ val, ch = .write id typ val → id.Fits) : Named (apply entries ch).1 := by
  cases ch with
  | destroy entry index => exact fun e he => hn e (List.mem_filter.mp he).1
  | write id typ val =>
      have hid := hfits id typ val rfl
      unfold apply
      dsimp only
      split
      · intro e he
        rcases List.mem_or_eq_of_mem_set he with he | rfl
        · exact hn e he
        · exact ⟨hid, rfl⟩
      · intro e he
        rcases List.mem_append.mp he with he | he
        · exact hn e (List.mem_of_mem_take he)
        · rcases List.mem_cons.mp he with rfl | he
          · exact ⟨hid, rfl⟩
          · exact hn e (List.mem_of_mem_drop he)

theorem named_applyAll {changes : List Change} (hn : Named entries)
    (hfits : ∀ id typ val, .write id typ val ∈ changes → id.Fits) :
    Named (applyAll entries changes).1 := by
  induction changes generalizing entries with
  | nil => exact hn
  | cons ch rest ih =>
      refine ih (named_apply hn fun id typ val h => hfits id typ val ?_)
        fun id typ val h => hfits id typ val (List.mem_cons_of_mem _ h)
      exact h ▸ List.mem_cons_self

end Tree

namespace Agent

variable {κ : Type} {toBigInt : Value → Int}

theorem ordered_set {a : Agent κ} (h : Tree.Ordered a.tree.entries) (ver : Version)
    (vars : List Varbind) : Tree.Ordered (a.set toBigInt ver vars).1.tree.entries := by
  unfold set
  dsimp only
  split
  · exact h
  · split
    · exact h
    · rename_i hnext
      exact Tree.ordered_withChanges h hnext

theorem ordered_serve {a : Agent κ} (h : Tree.Ordered a.tree.entries)
    (requests : List (Version × List Varbind)) :
    Tree.Ordered (a.serve toBigInt requests).tree.entries := by
  induction requests generalizing a with
  | nil => exact h
  | cons req rest ih => exact ih (ordered_set h req.1 req.2)

theorem wellFormed_set {a : Agent κ} (h : a.tree.WellFormed) (ver : Version)
    (vars : List Varbind) : (a.set toBigInt ver vars).1.tree.WellFormed := by
  refine ⟨ordered_set h.ordered ver vars, ?_⟩
  unfold set
  dsimp only
  split
  · exact h.named
  · rename_i chs hchs
    split
    · exact h.named
    · rename_i next hnext
      unfold Tree.withChanges at hnext
      dsimp only at hnext
      split at hnext
      · obtain rfl := Option.some.inj hnext
        exact Tree.named_applyAll h.named fun _ _ _ hmem => fits_of_changes hchs hmem
      · cases hnext

/-- **Whatever SETs an agent is served, its tree stays well formed.** -/
theorem wellFormed_serve {a : Agent κ} (h : a.tree.WellFormed)
    (requests : List (Version × List Varbind)) :
    (a.serve toBigInt requests).tree.WellFormed := by
  induction requests generalizing a with
  | nil => exact h
  | cons req rest ih => exact ih (wellFormed_set h req.1 req.2)

/--
**The tree stays in order, and neighbours tell what may be put into it.**

Whatever SETs an agent is served, its entries are strictly increasing and none is the
prefix of another; and an OID is placeable exactly when an entry made at it, where
`find` would put it, keeps both.
-/
theorem tree_invariant {objects : List (Object κ)} {t : Tree κ} (h : Tree.newTree objects = .ok t)
    (rowStatus : Option (Octets → Option Octets)) (requests : List (Version × List Varbind)) :
    let tree := (serve toBigInt { tree := t, rowStatus } requests).tree
    Tree.Ordered tree.entries ∧ ∀ e : Entry κ, tree.placeable e.oid = true ↔
      Tree.Ordered (Tree.insertAt tree.entries (Tree.find tree.entries e.oid).1 e) := by
  have ho := @ordered_serve _ toBigInt { tree := t, rowStatus }
    (Tree.ordered_newTree h) requests
  exact ⟨ho, fun e => Tree.placeable_iff ho e⟩

/-! ### A device with a name, to which a manager adds a row and then takes it away -/

/-- `sysName.0`. -/
def sysName : Object Unit where
  oid := Strings.dotted [1, 3, 6, 1, 2, 1, 1, 5, 0]
  type := .octetString
  value := some (const Unit (.str [114, 49]))

/-- Column 3 of a table is its RowStatus. -/
def columnThree (name : Octets) : Option Octets :=
  if name = Oid.string [1, 3, 6, 1, 4, 1, 9, 1, 3, 7] then
    some (Oid.string [1, 3, 6, 1, 4, 1, 9, 1, 3])
  else none

/-- A number, as it comes. -/
def plainInt : Value → Int
  | .int n => n
  | .uint32 n => n
  | .uint64 n => n
  | _ => 0

/-- `createAndGo` with a second column, then `destroy`. -/
def rowComesAndGoes : List (Version × List Varbind) :=
  let status := Oid.string [1, 3, 6, 1, 4, 1, 9, 1, 3, 7]
  let column := Oid.string [1, 3, 6, 1, 4, 1, 9, 1, 2, 7]
  [(.v2c, [{ name := status, type := .integer, value := .int 4 },
      { name := column, type := .gauge32, value := .uint32 9 }]),
    (.v2c, [{ name := status, type := .integer, value := .int 6 }])]

theorem tree_invariant_row : ∃ t : Tree Unit, Tree.newTree [sysName] = .ok t ∧
    (serve plainInt { tree := t, rowStatus := some columnThree }
      (rowComesAndGoes.take 1)).tree.entries.length = 3 ∧
    Tree.Ordered (serve plainInt { tree := t, rowStatus := some columnThree }
      rowComesAndGoes).tree.entries := by
  have hlen : ((Tree.newTree [sysName]).toOption.map fun t =>
      (serve plainInt { tree := t, rowStatus := some columnThree }
        (rowComesAndGoes.take 1)).tree.entries.length) = some 3 := by
    decide
  cases ht : Tree.newTree [sysName] with
  | error err => exact absurd hlen (by simp [ht, Except.toOption])
  | ok t =>
      refine ⟨t, rfl, ?_, (tree_invariant ht (some columnThree) rowComesAndGoes).1⟩
      simpa [ht, Except.toOption] using hlen

end Agent

end SnmpLens.Simulator
