import Mathlib.Data.List.Perm.Basic
import SnmpLens.Simulator.Pdu

/-!
# A SET is one change

`pkg/simulator/set.go` checks every varbind against the tree as it is, and only then
applies them one after the other. So a SET that is refused changes nothing; and one
that is accepted comes to the same in any order, unless it writes an instance into a
row it also takes away, where the order decides whether the instance is left.
-/

namespace SnmpLens.Simulator

open Utf8

variable {typ : Asn1BER} {val : Value} {id : Oid}

namespace Tree

variable {κ : Type} {entries : List (Entry κ)}

/-! ## One change -/

/-- Whether `id` is written. -/
def Writes (changes : List Change) (id : Oid) : Prop := ∃ typ val, .write id typ val ∈ changes

/-- Whether `id` is an instance of a row that goes. -/
def Destroys (changes : List Change) (id : Oid) : Prop :=
  ∃ entry index, .destroy entry index ∈ changes ∧ inRow id entry index = true

/-- **A write replaces what was there.** -/
theorem mem_apply_write (hs : Sorted entries) {e : Entry κ} :
    e ∈ (apply entries (.write id typ val)).1 ↔
      e = entryOf κ id typ val ∨ e ∈ entries ∧ e.oid ≠ id := by
  obtain ⟨front, back, hf, hb, ⟨x, hx, rfl, heq⟩ | ⟨rfl, heq⟩⟩ := apply_write hs id typ val
  · rw [heq, List.mem_append, List.mem_append, List.mem_cons, List.mem_cons]
    constructor
    · rintro (he | rfl | he)
      · exact .inr ⟨.inl he, (hf e he).ne⟩
      · exact .inl rfl
      · exact .inr ⟨.inr (.inr he), (hb e he).ne'⟩
    · rintro (rfl | ⟨he | rfl | he, hne⟩)
      · exact .inr (.inl rfl)
      · exact .inl he
      · exact absurd hx hne
      · exact .inr (.inr he)
  · rw [heq, List.mem_append, List.mem_append, List.mem_cons]
    constructor
    · rintro (he | rfl | he)
      · exact .inr ⟨.inl he, (hf e he).ne⟩
      · exact .inl rfl
      · exact .inr ⟨.inr he, (hb e he).ne'⟩
    · rintro (rfl | ⟨he | he, _⟩)
      · exact .inr (.inl rfl)
      · exact .inl he
      · exact .inr (.inr he)

theorem mem_made_write (hs : Sorted entries) {o : Oid} :
    o ∈ (apply entries (.write id typ val)).2.toList ↔ o = id ∧ ∀ e ∈ entries, e.oid ≠ id := by
  obtain ⟨front, back, hf, hb, ⟨x, hx, rfl, heq⟩ | ⟨rfl, heq⟩⟩ := apply_write hs id typ val
  · rw [heq]
    constructor
    · intro h
      cases h
    · rintro ⟨_, hnone⟩
      exact absurd hx (hnone x (List.mem_append_right _ List.mem_cons_self))
  · have hnone : ∀ e ∈ front ++ back, e.oid ≠ id := by
      intro e he
      rcases List.mem_append.mp he with he | he
      · exact (hf e he).ne
      · exact (hb e he).ne'
    rw [heq]
    show o ∈ [id] ↔ _
    rw [List.mem_singleton]
    exact ⟨fun h => ⟨h, hnone⟩, fun h => h.1⟩

theorem mem_apply_destroy {entry index : Oid} {e : Entry κ} :
    e ∈ (apply entries (.destroy entry index)).1 ↔
      e ∈ entries ∧ inRow e.oid entry index = false := by
  unfold apply
  rw [List.mem_filter, Bool.not_eq_true']

/-! ## All of them -/

/-- The instances a list of changes writes, one after the other. -/
def written (changes : List Change) : List Oid :=
  changes.filterMap fun
    | .write id _ _ => some id
    | .destroy _ _ => none

/-- No instance is written twice, and none into a row that goes. -/
structure Apart (changes : List Change) : Prop where
  once : (written changes).Nodup
  kept : ∀ id, Writes changes id → ¬ Destroys changes id

variable {changes : List Change}

theorem mem_written :
    id ∈ written changes ↔ Writes changes id := by
  unfold written Writes
  rw [List.mem_filterMap]
  constructor
  · rintro ⟨ch, hch, hid⟩
    cases ch with
    | write id' typ val =>
        obtain rfl := Option.some.inj hid
        exact ⟨typ, val, hch⟩
    | destroy entry index => cases hid
  · rintro ⟨typ, val, hch⟩
    exact ⟨_, hch, rfl⟩

section

variable {rest : List Change} {id o : Oid} {typ : Asn1BER} {val : Value} {entry index : Oid}

@[simp] theorem writes_write : Writes (.write id typ val :: rest) o ↔ o = id ∨ Writes rest o := by
  simp only [Writes, List.mem_cons, Change.write.injEq, exists_or, exists_and_left, exists_eq,
    and_true]

@[simp] theorem writes_destroy : Writes (.destroy entry index :: rest) o ↔ Writes rest o := by
  simp [Writes]

@[simp] theorem destroys_write : Destroys (.write id typ val :: rest) o ↔ Destroys rest o := by
  simp [Destroys]

@[simp] theorem destroys_destroy :
    Destroys (.destroy entry index :: rest) o ↔ inRow o entry index = true ∨ Destroys rest o := by
  simp only [Destroys, List.mem_cons, Change.destroy.injEq, or_and_right, exists_or, and_assoc,
    exists_and_left, exists_eq_left]

end

theorem Apart.tail {ch : Change} {rest : List Change} (h : Apart (ch :: rest)) : Apart rest := by
  have honce := h.once
  unfold written at honce
  cases ch with
  | write id typ val =>
      exact ⟨(List.nodup_cons.mp honce).2,
        fun o hw hd => h.kept o (writes_write.mpr (.inr hw)) (destroys_write.mpr hd)⟩
  | destroy entry index =>
      exact ⟨honce, fun o hw hd => h.kept o (writes_destroy.mpr hw) (destroys_destroy.mpr (.inr hd))⟩

theorem Apart.not_writes {rest : List Change} (h : Apart (.write id typ val :: rest)) :
    ¬ Writes rest id ∧ ¬ Destroys rest id :=
  ⟨fun hw => (List.nodup_cons.mp h.once).1 (mem_written.mpr hw),
    fun hd => h.kept id (writes_write.mpr (.inl rfl)) (destroys_write.mpr hd)⟩

variable {changes changes' : List Change}

theorem Apart.perm (h : Apart changes) (hp : changes'.Perm changes) : Apart changes' := by
  have hw : ∀ id, Writes changes' id → Writes changes id := by
    rintro id ⟨typ, val, hmem⟩
    exact ⟨typ, val, hp.mem_iff.mp hmem⟩
  have hd : ∀ id, Destroys changes' id → Destroys changes id := by
    rintro id ⟨entry, index, hmem, hrow⟩
    exact ⟨entry, index, hp.mem_iff.mp hmem, hrow⟩
  exact ⟨(hp.filterMap _).nodup_iff.mpr h.once, fun id h1 h2 => h.kept id (hw id h1) (hd id h2)⟩

/-- **What is there after changes that keep apart**: what they write, and what they leave. -/
theorem mem_applyAll (hs : Sorted entries) (ha : Apart changes) {e : Entry κ} :
    e ∈ (applyAll entries changes).1 ↔
      (∃ id typ val, .write id typ val ∈ changes ∧ e = entryOf κ id typ val) ∨
        e ∈ entries ∧ ¬ Writes changes e.oid ∧ ¬ Destroys changes e.oid := by
  induction changes generalizing entries with
  | nil => simp [applyAll, Writes, Destroys]
  | cons ch rest ih =>
      show e ∈ (applyAll (apply entries ch).1 rest).1 ↔ _
      rw [ih (sorted_apply hs ch) ha.tail]
      cases ch with
      | write id typ val =>
          simp only [mem_apply_write hs, writes_write, destroys_write, List.mem_cons,
            Change.write.injEq]
          constructor
          · rintro (⟨id', typ', val', hmem, rfl⟩ | ⟨rfl | ⟨he, hne⟩, hw, hd⟩)
            · exact .inl ⟨id', typ', val', .inr hmem, rfl⟩
            · exact .inl ⟨id, typ, val, .inl ⟨rfl, rfl, rfl⟩, rfl⟩
            · exact .inr ⟨he, not_or.mpr ⟨hne, hw⟩, hd⟩
          · rintro (⟨id', typ', val', ⟨rfl, rfl, rfl⟩ | hmem, rfl⟩ | ⟨he, hw, hd⟩)
            · exact .inr ⟨.inl rfl, ha.not_writes⟩
            · exact .inl ⟨id', typ', val', hmem, rfl⟩
            · exact .inr ⟨.inr ⟨he, (not_or.mp hw).1⟩, (not_or.mp hw).2, hd⟩
      | destroy entry index =>
          simp only [mem_apply_destroy, writes_destroy, destroys_destroy, List.mem_cons, reduceCtorEq,
            false_or, not_or, Bool.not_eq_true]
          constructor
          · rintro (hmem | ⟨⟨he, hrow⟩, hw, hd⟩)
            · exact .inl hmem
            · exact .inr ⟨he, hw, hrow, hd⟩
          · rintro (hmem | ⟨he, hw, hrow, hd⟩)
            · exact .inl hmem
            · exact .inr ⟨⟨he, hrow⟩, hw, hd⟩

theorem mem_made (hs : Sorted entries) (ha : Apart changes) {o : Oid} :
    o ∈ (applyAll entries changes).2 ↔ Writes changes o ∧ ∀ e ∈ entries, e.oid ≠ o := by
  induction changes generalizing entries with
  | nil => simp [applyAll, Writes]
  | cons ch rest ih =>
      show o ∈ (apply entries ch).2.toList ++ (applyAll (apply entries ch).1 rest).2 ↔ _
      rw [List.mem_append, ih (sorted_apply hs ch) ha.tail]
      cases ch with
      | write id typ val =>
          rw [mem_made_write hs, writes_write]
          constructor
          · rintro (⟨rfl, hnone⟩ | ⟨hw, hnone⟩)
            · exact ⟨.inl rfl, hnone⟩
            · refine ⟨.inr hw, fun e he heq => ?_⟩
              have hne : e.oid ≠ id := by
                rintro rfl
                exact ha.not_writes.1 (heq ▸ hw)
              exact hnone e ((mem_apply_write hs).mpr (.inr ⟨he, hne⟩)) heq
          · rintro ⟨rfl | hw, hnone⟩
            · exact .inl ⟨rfl, hnone⟩
            · refine .inr ⟨hw, fun e he heq => ?_⟩
              rcases (mem_apply_write hs).mp he with rfl | ⟨he, _⟩
              · obtain rfl : id = o := heq
                exact ha.not_writes.1 hw
              · exact hnone e he heq
      | destroy entry index =>
          rw [writes_destroy]
          constructor
          · rintro (hmade | ⟨hw, hnone⟩)
            · exact absurd hmade (by simp [apply])
            · refine ⟨hw, fun e he heq => hnone e (mem_apply_destroy.mpr ⟨he, ?_⟩) heq⟩
              rw [← Bool.not_eq_true]
              intro hrow
              exact ha.kept o (writes_destroy.mpr hw) (destroys_destroy.mpr (.inl (heq ▸ hrow)))
          · rintro ⟨hw, hnone⟩
            exact .inr ⟨hw, fun e he heq => hnone e (mem_apply_destroy.mp he).1 heq⟩

/-- **Changes that keep apart come to the same in any order.** -/
theorem applyAll_perm (hs : Sorted entries) (ha : Apart changes) (hp : changes'.Perm changes) :
    (applyAll entries changes').1 = (applyAll entries changes).1 := by
  have : Std.Antisymm fun a b : Entry κ => a.oid < b.oid :=
    ⟨fun _ _ hab hba => absurd hba hab.not_gt⟩
  have : Std.Irrefl fun a b : Entry κ => a.oid < b.oid := ⟨fun _ => lt_irrefl _⟩
  have hw : ∀ id typ val, .write id typ val ∈ changes' ↔ .write id typ val ∈ changes :=
    fun _ _ _ => hp.mem_iff
  have hd : ∀ id, Destroys changes' id ↔ Destroys changes id := by
    intro id
    unfold Destroys
    simp only [hp.mem_iff]
  refine List.Pairwise.eq_of_mem_iff (List.pairwise_map.mp (sorted_applyAll hs))
    (List.pairwise_map.mp (sorted_applyAll hs)) fun e => ?_
  rw [mem_applyAll hs (ha.perm hp), mem_applyAll hs ha, hd]
  unfold Writes
  simp only [hw]

/-- The same to every request: what is made is a set of names. -/
structure Same (t t' : Tree κ) : Prop where
  entries : t.entries = t'.entries
  objects : ∀ name, name ∈ t.objects ↔ name ∈ t'.objects
  notifyOnly : t.notifyOnly = t'.notifyOnly

theorem withChanges_perm {t next : Tree κ} (hs : Sorted t.entries) (ha : Apart changes)
    (hp : changes'.Perm changes) (h : t.withChanges changes = some next) :
    ∃ next', t.withChanges changes' = some next' ∧ Same next' next := by
  have hentries := applyAll_perm hs ha hp
  unfold withChanges at h ⊢
  dsimp only at h ⊢
  rw [hentries]
  split at h
  · rename_i hnone
    obtain rfl := Option.some.inj h
    rw [if_pos hnone]
    refine ⟨_, rfl, rfl, fun name => ?_, rfl⟩
    have hmade : ∀ o, o ∈ (applyAll t.entries changes').2 ↔ o ∈ (applyAll t.entries changes).2 := by
      intro o
      rw [mem_made hs (ha.perm hp), mem_made hs ha]
      unfold Writes
      simp only [hp.mem_iff]
    simp only [List.mem_append, List.mem_map, hmade]
  · cases h

end Tree

namespace Agent

variable {κ : Type} {toBigInt : Value → Int} {a : Agent κ} {ver : Version} {vars : List Varbind}

/-! ## What a varbind asks for -/

/-- The row a varbind takes away: an entry and an index. -/
def destroyed (toBigInt : Value → Int) (a : Agent κ) (v : Varbind) : Option (Oid × Oid) := do
  let id ← (parseArcs v.name).toOption
  let column ← a.rowStatusColumn id
  match setValue toBigInt v.type v.value with
  | .ok (.int n) =>
      if n = rowDestroy then some (column.dropLast, id.drop column.length) else none
  | _ => none

/-- What an instance that is written then holds: a RowStatus, the state it was asked for. -/
def heldValue (a : Agent κ) (id : Oid) (val : Value) : Value :=
  match a.rowStatusColumn id, val with
  | some _, .int n =>
      if n = rowCreateAndGo then .int rowActive
      else if n = rowCreateAndWait then .int rowNotInService
      else .int n
  | _, val => val

theorem rowStatus_ok {present : Bool} {asked next : Int}
    (h : Simulator.rowStatus present asked = .ok next) :
    (asked = rowDestroy ∧ next = rowDestroy) ∨ asked ≠ rowDestroy ∧ next ≠ rowDestroy ∧
      next = if asked = rowCreateAndGo then rowActive
        else if asked = rowCreateAndWait then rowNotInService else asked := by
  unfold Simulator.rowStatus at h
  split at h
  · rename_i hcreate
    split at h
    · cases h
    · refine .inr ?_
      rcases hcreate with rfl | rfl
      · obtain rfl := Except.ok.inj h
        decide
      · obtain rfl := Except.ok.inj h
        decide
  · rename_i hcreate
    split at h
    · rename_i hstay
      split at h
      · obtain rfl := Except.ok.inj h
        refine .inr ?_
        rcases hstay with rfl | rfl <;> decide
      · cases h
    · split at h
      · rename_i hdestroy
        exact .inl ⟨hdestroy, (Except.ok.inj h).symm⟩
      · cases h

/-- **A varbind that is accepted takes its row away, or writes its instance.** -/
theorem checkVarbind_cases {v : Varbind} {ch : Change} (h : a.checkVarbind toBigInt v = .ok ch) :
    ∃ id val, parseArcs v.name = .ok id ∧ setValue toBigInt v.type v.value = .ok val ∧
      ((∃ entry index, a.destroyed toBigInt v = some (entry, index) ∧ ch = .destroy entry index) ∨
        a.destroyed toBigInt v = none ∧ ch = .write id v.type (a.heldValue id val)) := by
  obtain ⟨id, val, hid, hval, hch⟩ := checkVarbind_ok h
  refine ⟨id, val, hid, hval, ?_⟩
  unfold destroyed heldValue
  unfold changeOf at hch
  rw [hid, hval]
  simp only [Except.toOption, Option.bind_eq_bind, Option.bind_some]
  cases hcolumn : a.rowStatusColumn id with
  | none =>
      rw [hcolumn] at hch
      exact .inr ⟨rfl, (Except.ok.inj hch).symm⟩
  | some column =>
      rw [hcolumn] at hch
      dsimp only at hch
      cases val with
      | int asked =>
          dsimp only at hch ⊢
          cases hnext : Simulator.rowStatus (a.tree.get id).isSome asked with
          | error status =>
              rw [hnext] at hch
              exact absurd hch (by simp [bind, Except.bind])
          | ok next =>
              rw [hnext] at hch
              simp only [bind, Except.bind] at hch
              rcases rowStatus_ok hnext with ⟨rfl, rfl⟩ | ⟨hasked, hne, rfl⟩
              · rw [if_pos rfl] at hch
                exact .inl ⟨column.dropLast, id.drop column.length, by simp,
                  (Except.ok.inj hch).symm⟩
              · rw [if_neg hne] at hch
                refine .inr ⟨by simp [hasked], ?_⟩
                rw [← Except.ok.inj hch]
                split
                · rfl
                · split <;> rfl
      | uint32 _ | uint64 _ | str _ | bytes _ | other => cases hch

/-! ## The whole request -/

/-- The names, as the OIDs they spell, are pairwise distinct. -/
def Distinct (vars : List Varbind) : Prop := (vars.map fun v => arcs v.name).Nodup

/-- Whether a SET writes an instance of a row it takes away. -/
def Mixed (toBigInt : Value → Int) (a : Agent κ) (vars : List Varbind) : Prop :=
  ∃ v ∈ vars, ∃ w ∈ vars, ∃ entry index, a.destroyed toBigInt v = some (entry, index) ∧
    a.destroyed toBigInt w = none ∧ Tree.inRow (arcs w.name) entry index = true

/-- **What a SET has done, were its varbinds all applied at once.** -/
structure Simultaneous (toBigInt : Value → Int) (a : Agent κ) (ver : Version)
    (vars : List Varbind) : Prop where
  /-- The order of the varbinds makes no difference. -/
  order : ∀ vars' : List Varbind, vars'.Perm vars →
    (a.set toBigInt ver vars').2.status = .noError ∧
      Tree.Same (a.set toBigInt ver vars').1.tree (a.set toBigInt ver vars).1.tree
  /-- Every instance written holds what it was set to. -/
  held : ∀ v ∈ vars, a.destroyed toBigInt v = none →
    ∀ val, setValue toBigInt v.type v.value = .ok val →
      ∃ e ∈ (a.set toBigInt ver vars).1.tree.entries, e.oid = arcs v.name ∧ e.typ = v.type ∧
        ∀ c, e.val.read c = a.heldValue (arcs v.name) val
  /-- Nothing is left of a row taken away. -/
  gone : ∀ v ∈ vars, ∀ entry index, a.destroyed toBigInt v = some (entry, index) →
    ∀ e ∈ (a.set toBigInt ver vars).1.tree.entries, Tree.inRow e.oid entry index = false

variable {chs : List Change}

theorem changes_of_forall₂ (i : Nat)
    (h : List.Forall₂ (fun v ch => a.checkVarbind toBigInt v = .ok ch) vars chs) :
    a.changes toBigInt i vars = .ok chs := by
  induction h generalizing i with
  | nil => rfl
  | cons hv _ ih =>
      unfold changes
      rw [hv]
      dsimp only
      rw [ih (i + 1)]
      rfl

variable {status : SNMPError}

theorem setValue_error {t : Asn1BER} {v : Value} (h : setValue toBigInt t v = .error status) :
    status ≠ .noError := by
  rintro rfl
  unfold setValue at h
  cases t <;> simp only [bind, Except.bind] at h <;> repeat' split at h
  all_goals cases h

theorem rowStatus_error {present : Bool} {asked : Int}
    (h : Simulator.rowStatus present asked = .error status) : status ≠ .noError := by
  rintro rfl
  unfold Simulator.rowStatus at h
  repeat' split at h
  all_goals cases h

theorem changeOf_error {present : Bool} (h : a.changeOf id present typ val = .error status) :
    status ≠ .noError := by
  unfold changeOf at h
  split at h
  · cases h
  · split at h
    · rename_i asked
      cases hnext : Simulator.rowStatus present asked with
      | error err =>
          rw [hnext] at h
          obtain rfl := Except.error.inj h
          exact rowStatus_error hnext
      | ok next =>
          rw [hnext] at h
          simp only [bind, Except.bind] at h
          split at h
          · cases h
          · cases h
    · rintro rfl
      cases h

theorem checkVarbind_error {v : Varbind} (h : a.checkVarbind toBigInt v = .error status) :
    status ≠ .noError := by
  have hvalue : ∀ id present, (do
      let val ← setValue toBigInt v.type v.value
      a.changeOf id present v.type val) = .error status → status ≠ .noError := by
    intro id present h
    cases hval : setValue toBigInt v.type v.value with
    | error err =>
        rw [hval] at h
        obtain rfl := Except.error.inj h
        exact setValue_error hval
    | ok val =>
        rw [hval] at h
        exact changeOf_error h
  unfold checkVarbind at h
  split at h
  · obtain rfl := Except.error.inj h
    exact SNMPError.noConfusion
  · split at h
    · obtain rfl := Except.error.inj h
      exact SNMPError.noConfusion
    · split at h
      · obtain rfl := Except.error.inj h
        exact SNMPError.noConfusion
      · split at h
        · split at h
          · obtain rfl := Except.error.inj h
            exact SNMPError.noConfusion
          · exact hvalue _ _ h
        · split at h
          · obtain rfl := Except.error.inj h
            exact SNMPError.noConfusion
          · exact hvalue _ _ h

theorem changes_error {i j : Nat} (h : a.changes toBigInt i vars = .error (j, status)) :
    status ≠ .noError := by
  induction vars generalizing i with
  | nil => exact absurd h (by simp [changes])
  | cons v rest ih =>
      unfold changes at h
      split at h
      · rename_i err herr
        obtain rfl := (Prod.mk.inj (Except.error.inj h)).2
        exact checkVarbind_error herr
      · cases hrest : a.changes toBigInt (i + 1) rest with
        | error err =>
            rw [hrest] at h
            obtain rfl := Except.error.inj h
            exact ih hrest
        | ok more =>
            rw [hrest] at h
            exact absurd h (by simp [Except.map])

theorem v1Status_ne {ver : Version} (h : status ≠ .noError) :
    (if ver = .v1 then v1Status status else status) ≠ .noError := by
  split
  · cases status <;> first | exact absurd rfl h | exact SNMPError.noConfusion
  · exact h

theorem set_noError (h : (a.set toBigInt ver vars).2.status = .noError) :
    ∃ chs next, List.Forall₂ (fun v ch => a.checkVarbind toBigInt v = .ok ch) vars chs ∧
      a.tree.withChanges chs = some next ∧
      (a.set toBigInt ver vars).1 = { a with tree := next } := by
  unfold set at h ⊢
  dsimp only at h ⊢
  cases hchs : a.changes toBigInt 0 vars with
  | error err =>
      rw [hchs] at h
      exact absurd h (v1Status_ne (changes_error hchs))
  | ok chs =>
      rw [hchs] at h
      dsimp only at h ⊢
      cases hnext : a.tree.withChanges chs with
      | none =>
          rw [hnext] at h
          exact absurd h (v1Status_ne SNMPError.noConfusion)
      | some next => exact ⟨chs, next, forall₂_of_changes hchs, hnext, rfl⟩

theorem set_eq {next : Tree κ}
    (hchs : List.Forall₂ (fun v ch => a.checkVarbind toBigInt v = .ok ch) vars chs)
    (hnext : a.tree.withChanges chs = some next) :
    a.set toBigInt ver vars = ({ a with tree := next }, { vars }) := by
  unfold set
  dsimp only
  rw [changes_of_forall₂ 0 hchs]
  dsimp only
  rw [hnext]

/-- **A SET that is refused changes nothing.** -/
theorem set_refused (h : (a.set toBigInt ver vars).2.status ≠ .noError) :
    (a.set toBigInt ver vars).1 = a := by
  unfold set at h ⊢
  dsimp only at h ⊢
  cases hchs : a.changes toBigInt 0 vars with
  | error err => rfl
  | ok chs =>
      rw [hchs] at h
      dsimp only at h ⊢
      cases hnext : a.tree.withChanges chs with
      | none => rfl
      | some next =>
          rw [hnext] at h
          exact absurd rfl h

/-- A write comes from a varbind that takes no row away, and a destroy from one that does. -/
theorem changes_from (h : List.Forall₂ (fun v ch => a.checkVarbind toBigInt v = .ok ch) vars chs) :
    (∀ id typ val, .write id typ val ∈ chs →
      ∃ v ∈ vars, a.destroyed toBigInt v = none ∧ arcs v.name = id) ∧
    ∀ entry index, .destroy entry index ∈ chs →
      ∃ v ∈ vars, a.destroyed toBigInt v = some (entry, index) := by
  constructor
  · intro id typ val hmem
    obtain ⟨v, hv, hcheck⟩ := Strings.left_of_forall₂ h hmem
    obtain ⟨id', val', hid, _, ⟨_, _, _, heq⟩ | ⟨hnone, heq⟩⟩ := checkVarbind_cases hcheck
    · cases heq
    · refine ⟨v, hv, hnone, ?_⟩
      rw [(Change.write.inj heq).1, arcs, hid]
      rfl
  · intro entry index hmem
    obtain ⟨v, hv, hcheck⟩ := Strings.left_of_forall₂ h hmem
    obtain ⟨id', val', hid, _, ⟨entry', index', hsome, heq⟩ | ⟨_, heq⟩⟩ :=
      checkVarbind_cases hcheck
    · obtain ⟨rfl, rfl⟩ := Change.destroy.inj heq
      exact ⟨v, hv, hsome⟩
    · cases heq

theorem written_sublist (h : List.Forall₂ (fun v ch => a.checkVarbind toBigInt v = .ok ch) vars chs)
    :
    (Tree.written chs).Sublist (vars.map fun v => arcs v.name) := by
  induction h with
  | nil => exact .refl _
  | @cons v ch vars chs hv _ ih =>
      obtain ⟨id, val, hid, _, ⟨_, _, _, rfl⟩ | ⟨_, rfl⟩⟩ := checkVarbind_cases hv
      · exact ih.cons _
      · have hname : arcs v.name = id := by
          rw [arcs, hid]
          rfl
        rw [List.map_cons, hname]
        exact ih.cons_cons id

theorem apart_of_not_mixed
    (h : List.Forall₂ (fun v ch => a.checkVarbind toBigInt v = .ok ch) vars chs)
    (hd : Distinct vars) (hm : ¬ a.Mixed toBigInt vars) : Tree.Apart chs := by
  refine ⟨(written_sublist h).nodup hd, ?_⟩
  rintro id ⟨typ, val, hwrite⟩ ⟨entry, index, hdestroy, hrow⟩
  obtain ⟨w, hw, hnone, rfl⟩ := (changes_from h).1 id typ val hwrite
  obtain ⟨v, hv, hsome⟩ := (changes_from h).2 entry index hdestroy
  exact hm ⟨v, hv, w, hw, entry, index, hsome, hnone, hrow⟩

theorem simultaneous_of_not_mixed (hs : Tree.Sorted a.tree.entries)
    (hok : (a.set toBigInt ver vars).2.status = .noError) (hd : Distinct vars)
    (hm : ¬ a.Mixed toBigInt vars) : a.Simultaneous toBigInt ver vars := by
  obtain ⟨chs, next, hchs, hnext, hset⟩ := set_noError hok
  have ha := apart_of_not_mixed hchs hd hm
  have hentries : next.entries = (Tree.applyAll a.tree.entries chs).1 := by
    unfold Tree.withChanges at hnext
    dsimp only at hnext
    split at hnext
    · rw [← Option.some.inj hnext]
    · cases hnext
  refine ⟨?_, ?_, ?_⟩
  · intro vars' hp
    obtain ⟨chs', hchs', hp'⟩ := List.perm_comp_forall₂ hp hchs
    obtain ⟨next', hnext', hsame⟩ := Tree.withChanges_perm hs ha hp' hnext
    rw [set_eq hchs' hnext', hset]
    exact ⟨rfl, hsame⟩
  · intro v hv hnone val hval
    rw [hset]
    show ∃ e ∈ next.entries, _
    obtain ⟨ch, hch, hcheck⟩ := Strings.right_of_forall₂ hchs hv
    obtain ⟨id, val', hid, hval', ⟨_, _, hsome, _⟩ | ⟨_, rfl⟩⟩ := checkVarbind_cases hcheck
    · rw [hnone] at hsome
      cases hsome
    · obtain rfl := Except.ok.inj (hval.symm.trans hval')
      have hname : arcs v.name = id := by
        rw [arcs, hid]
        rfl
      rw [hentries, hname]
      exact ⟨Tree.entryOf κ id v.type (a.heldValue id val),
        (Tree.mem_applyAll hs ha).mpr (.inl ⟨_, _, _, hch, rfl⟩), rfl, rfl, fun _ => rfl⟩
  · intro v hv entry index hsome e he
    rw [hset] at he
    have he : e ∈ (Tree.applyAll a.tree.entries chs).1 := hentries ▸ he
    obtain ⟨ch, hch, hcheck⟩ := Strings.right_of_forall₂ hchs hv
    have hdestroy : .destroy entry index ∈ chs := by
      obtain ⟨_, _, _, _, ⟨entry', index', hsome', rfl⟩ | ⟨hnone, _⟩⟩ := checkVarbind_cases hcheck
      · obtain ⟨rfl, rfl⟩ := Prod.mk.inj (Option.some.inj (hsome.symm.trans hsome'))
        exact hch
      · rw [hnone] at hsome
        cases hsome
    rw [← Bool.not_eq_true]
    intro hrow
    rcases (Tree.mem_applyAll hs ha).mp he with ⟨id, typ, val, hw, rfl⟩ | ⟨_, _, hd⟩
    · exact ha.kept id ⟨typ, val, hw⟩ ⟨entry, index, hdestroy, hrow⟩
    · exact hd ⟨entry, index, hdestroy, hrow⟩

/-- What is written into a row that goes cannot both be held and be gone. -/
theorem not_mixed_of_simultaneous (hok : (a.set toBigInt ver vars).2.status = .noError)
    (h : a.Simultaneous toBigInt ver vars) : ¬ a.Mixed toBigInt vars := by
  rintro ⟨v, hv, w, hw, entry, index, hsome, hnone, hrow⟩
  obtain ⟨chs, next, hchs, _, _⟩ := set_noError hok
  obtain ⟨ch, _, hcheck⟩ := Strings.right_of_forall₂ hchs hw
  obtain ⟨id, val, _, hval, _⟩ := checkVarbind_cases hcheck
  obtain ⟨e, he, hoid, _⟩ := h.held w hw hnone val hval
  have hgone := h.gone v hv entry index hsome e he
  rw [hoid, hrow] at hgone
  cases hgone

/--
**A SET is one change, exactly when it writes nothing into a row it takes away.**

Whatever SETs an agent has been served: a SET it refuses changes nothing, and one it
accepts, of pairwise distinct names, comes to the same in every order, holds what
was written and leaves nothing of the rows destroyed, if and only if no varbind of it
writes an instance of a row that another one destroys.
-/
theorem set_simultaneous {objects : List (Object κ)} {first : Tree κ}
    (h : Tree.newTree objects = .ok first) (rowStatus : Option (Octets → Option Octets))
    (requests : List (Version × List Varbind)) (ver : Version) (vars : List Varbind) :
    let a := serve toBigInt { tree := first, rowStatus } requests
    ((a.set toBigInt ver vars).2.status ≠ .noError → (a.set toBigInt ver vars).1 = a) ∧
      ((a.set toBigInt ver vars).2.status = .noError → Distinct vars →
        (a.Simultaneous toBigInt ver vars ↔ ¬ a.Mixed toBigInt vars)) := by
  intro a
  have hs : Tree.Sorted a.tree.entries :=
    (wellFormed_serve (Tree.wellFormed_newTree h) requests).ordered.increasing
  exact ⟨set_refused, fun hok hd =>
    ⟨not_mixed_of_simultaneous hok, simultaneous_of_not_mixed hs hok hd⟩⟩

/-! ### A row that outlives its own destruction -/

/-- The device with one row, made by a manager. -/
def oneRow : Option (Agent Unit) :=
  (Tree.newTree [sysName]).toOption.map fun t =>
    serve plainInt { tree := t, rowStatus := some columnThree } (rowComesAndGoes.take 1)

/-- The row is destroyed, and its second column written, in one request. -/
def destroyThenWrite : List Varbind :=
  [{ name := Oid.string [1, 3, 6, 1, 4, 1, 9, 1, 3, 7], type := .integer, value := .int 6 },
    { name := Oid.string [1, 3, 6, 1, 4, 1, 9, 1, 2, 7], type := .gauge32, value := .uint32 5 }]

theorem row_survives : ∃ a, oneRow = some a ∧
    (a.set plainInt .v2c destroyThenWrite).2.status = .noError ∧ Distinct destroyThenWrite ∧
    (a.set plainInt .v2c destroyThenWrite).1.tree.entries.length = 2 ∧
    (a.set plainInt .v2c destroyThenWrite.reverse).1.tree.entries.length = 1 ∧
    ¬ a.Simultaneous plainInt .v2c destroyThenWrite := by
  have hrun : (oneRow.map fun a =>
      ((a.set plainInt .v2c destroyThenWrite).2.status,
        (a.set plainInt .v2c destroyThenWrite).1.tree.entries.length,
        (a.set plainInt .v2c destroyThenWrite.reverse).1.tree.entries.length))
      = some (.noError, 2, 1) := by decide
  cases ha : oneRow with
  | none => exact absurd hrun (by simp [ha])
  | some a =>
      rw [ha] at hrun
      obtain ⟨hok, htwo, hone⟩ := by simpa using hrun
      refine ⟨a, rfl, hok, by unfold Distinct; decide, htwo, hone, fun h => ?_⟩
      have horder := (h.order destroyThenWrite.reverse (List.reverse_perm _)).2.entries
      rw [horder] at hone
      omega

/-- The row as it is made: its status and its second column. -/
def createRow : List Varbind := (rowComesAndGoes.take 1).flatMap Prod.snd

theorem set_simultaneous_row : ∃ t : Tree Unit, Tree.newTree [sysName] = .ok t ∧
    ({ tree := t, rowStatus := some columnThree } : Agent Unit).Simultaneous plainInt .v2c
      createRow := by
  have hrun : ((Tree.newTree [sysName]).toOption.map fun t =>
      let a : Agent Unit := { tree := t, rowStatus := some columnThree }
      ((a.set plainInt .v2c createRow).2.status,
        createRow.all fun v => (a.destroyed plainInt v).isNone)) = some (.noError, true) := by
    decide
  cases ht : Tree.newTree [sysName] with
  | error err => exact absurd hrun (by simp [ht, Except.toOption])
  | ok t =>
      rw [ht] at hrun
      obtain ⟨hok, hnone⟩ := Prod.mk.inj (Option.some.inj hrun)
      refine ⟨t, rfl, ((@set_simultaneous _ plainInt _ _ ht (some columnThree) [] .v2c
        createRow).2 hok (by unfold Distinct; decide)).mpr ?_⟩
      rintro ⟨v, hv, _, _, _, _, hsome, _⟩
      have hv := Option.isNone_iff_eq_none.mp (List.all_eq_true.mp hnone v hv)
      exact Option.some_ne_none _ (hsome.symm.trans hv)

end Agent

end SnmpLens.Simulator
