import Mathlib.Data.List.Nodup

/-!
# The query history

`ImportHistoryEntries`, `ClearHistory`, `LoadHistory` and `trimHistory` of
`pkg/storage/storage.go`, and `export` and `import` of the renderer's `historyStore.js`.
The table is ordered by `rowid`, which is the order of insertion, and read newest first.
An export is newest first as well and is inserted in its own order, so the newest entry
becomes the oldest; and the table is cleared before, in a call of its own.

JSON is read back as it was written. An entry is an id and whatever else it holds.
-/

namespace SnmpLens.History

/-- `maxHistoryEntries`, and `MAX_HISTORY_ENTRIES`. -/
def maxHistoryEntries : Nat := 2000

structure Entry (β : Type) where
  id : String
  body : β
deriving DecidableEq

/-- An element of the array that is imported. What is not null spreads into an object; the id is
`String(e.id)`, if it has one. -/
inductive Element (β : Type) where
  | null
  | value (id : Option String) (body : β)

/-- Which statements are refused. -/
structure Faults where
  clear : Bool := false
  begin_ : Bool := false
  prepare : Bool := false
  /-- `stmt.Exec`, of the entry at a position. -/
  exec : Nat → Bool := fun _ => false
  commit : Bool := false
  trim : Bool := false
  load : Bool := false

/-- `query_history` in the order of its `rowid`, and the store's list, newest first. -/
structure State (β : Type) where
  table : List (Entry β)
  store : List (Entry β)

variable {β : Type}

/-! ## The table -/

/-- `INSERT OR REPLACE`: the row that is replaced is deleted, and the new one comes last. -/
def insertRow (table : List (Entry β)) (e : Entry β) : List (Entry β) :=
  (table.filter fun row => row.id != e.id) ++ [e]

def trimHistory (x : Faults) (table : List (Entry β)) : List (Entry β) :=
  if x.trim then table else table.drop (table.length - maxHistoryEntries)

/-- The loop of `ImportHistoryEntries`. A row that is refused is passed over. -/
def insertRows (x : Faults) (entries : List (Entry β)) (table : List (Entry β)) : List (Entry β) :=
  entries.zipIdx.foldl (fun table e =>
    if e.1.id = "" ∨ x.exec e.2 then table else insertRow table e.1) table

/-- `ImportHistoryEntries`: whether it succeeds, and the table after it. -/
def importHistoryEntries (x : Faults) (entries : List (Entry β)) (table : List (Entry β)) :
    Bool × List (Entry β) :=
  if entries = [] then (true, table)
  else if x.begin_ || x.prepare || x.commit then (false, table)
  else (true, trimHistory x (insertRows x entries table))

def loadHistory (x : Faults) (table : List (Entry β)) : Option (List (Entry β)) :=
  if x.load then none else some table.reverse

/-! ## The store -/

/-- `nextId` is drawn for an element without an id. Null has no properties, so it throws. -/
def normalize (nextId : Nat → String) : List (Element β × Nat) → Option (List (Entry β))
  | [] => some []
  | (.null, _) :: _ => none
  | (.value id body, i) :: rest =>
      (normalize nextId rest).map fun entries => { id := id.getD (nextId i), body } :: entries

/-- `import`: what it returns, and what it leaves. `none` does not parse or is no array. -/
def import_ (nextId : Nat → String) (x : Faults) (imported : Option (List (Element β))) (s : State β) :
    Bool × State β :=
  match imported.bind fun es => normalize nextId es.zipIdx with
  | none => (false, s)
  | some entries =>
      if x.clear then (false, s)
      else
        let inserted := importHistoryEntries x entries []
        if !inserted.1 then (false, { s with table := inserted.2 })
        else
          match loadHistory x inserted.2 with
          | none => (false, { s with table := inserted.2 })
          | some store => (true, { table := inserted.2, store })

/-- `export`, parsed again. -/
def export_ (entries : List (Entry β)) : List (Element β) :=
  entries.map fun e => .value (some e.id) e.body

/-- What is exported is imported, so many times. -/
def again (nextId : Nat → String) (s : State β) : Nat → State β
  | 0 => s
  | k + 1 => (import_ nextId {} (some (export_ (again nextId s k).store)) (again nextId s k)).2

/-! ## What is claimed -/

/-- However often, the same entries in the same order, the newest of them up to the cap. -/
def RoundTrip (nextId : Nat → String) (s : State β) : Prop :=
  ∀ k, (again nextId s (k + 1)).store = s.store.take maxHistoryEntries ∧
    (again nextId s (k + 1)).table.reverse = s.store.take maxHistoryEntries

/-- An import that fails leaves the history as it was. -/
def AllOrNothing (nextId : Nat → String) (x : Faults) (imported : Option (List (Element β)))
    (s : State β) : Prop :=
  (import_ nextId x imported s).1 = false → (import_ nextId x imported s).2 = s

/-! ## The round trip -/

theorem normalize_export (nextId : Nat → String) (entries : List (Entry β)) (i : Nat) :
    normalize nextId ((export_ entries).zipIdx i) = some entries := by
  induction entries generalizing i with
  | nil => rfl
  | cons e rest ih =>
      show (normalize nextId ((export_ rest).zipIdx (i + 1))).map _ = _
      rw [ih]
      rfl

theorem insertRows_eq (entries table : List (Entry β)) (hnodup : (entries.map Entry.id).Nodup)
    (hnew : ∀ e ∈ entries, ∀ row ∈ table, row.id ≠ e.id) :
    insertRows {} entries table = table ++ entries.filter fun e => e.id != "" := by
  have hgo : ∀ (entries table : List (Entry β)) (i : Nat), (entries.map Entry.id).Nodup →
      (∀ e ∈ entries, ∀ row ∈ table, row.id ≠ e.id) →
      (entries.zipIdx i).foldl (fun table e =>
        if e.1.id = "" ∨ ({} : Faults).exec e.2 then table else insertRow table e.1) table
          = table ++ entries.filter fun e => e.id != "" := by
    intro entries
    induction entries with
    | nil => simp
    | cons e rest ih =>
        intro table i hnodup hnew
        obtain ⟨hout, hrest⟩ := List.nodup_cons.mp hnodup
        rw [List.zipIdx_cons, List.foldl_cons]
        by_cases hid : e.id = ""
        · rw [if_pos (.inl hid), ih table _ hrest fun e he => hnew e (List.mem_cons_of_mem _ he)]
          simp [hid]
        · have hput : insertRow table e = table ++ [e] := by
            unfold insertRow
            rw [List.filter_eq_self.mpr fun row hrow => ?_]
            exact bne_iff_ne.mpr (hnew e List.mem_cons_self row hrow)
          rw [if_neg (by simp [hid]), hput, ih (table ++ [e]) _ hrest]
          · simp [hid]
          · intro e' he' row hrow
            rcases List.mem_append.mp hrow with hrow | hrow
            · exact hnew e' (List.mem_cons_of_mem _ he') row hrow
            · rw [List.mem_singleton.mp hrow]
              exact fun heq => hout (heq ▸ List.mem_map_of_mem he')
  exact hgo entries table 0 hnodup hnew

theorem drop_reverse {α : Type} (l : List α) (n : Nat) :
    (l.drop (l.length - n)).reverse = l.reverse.take n := by
  rw [List.reverse_drop]
  rcases Nat.le_total n l.length with hle | hle
  · rw [show l.length - (l.length - n) = n by omega]
  · rw [show l.length - (l.length - n) = l.length by omega, List.take_of_length_le (by simp),
      List.take_of_length_le (by simp; omega)]

/-- **An import of an export leaves the entries in the opposite order.** -/
theorem import_export (nextId : Nat → String) (s : State β) (entries : List (Entry β))
    (hnodup : (entries.map Entry.id).Nodup) :
    let t := (import_ nextId {} (some (export_ entries)) s).2
    t.store = (entries.filter fun e => e.id != "").reverse.take maxHistoryEntries ∧
      t.table.reverse = t.store := by
  have hrows : (importHistoryEntries {} entries ([] : List (Entry β))).2.reverse
      = (entries.filter fun e => e.id != "").reverse.take maxHistoryEntries := by
    unfold importHistoryEntries
    by_cases hnil : entries = []
    · rw [if_pos hnil, hnil]
      simp
    · rw [if_neg hnil, if_neg (by simp)]
      have hall : insertRows {} entries ([] : List (Entry β)) = entries.filter fun e => e.id != "" := by
        rw [insertRows_eq entries [] hnodup fun _ _ _ h => (by cases h), List.nil_append]
      have htrim : ∀ table : List (Entry β),
          trimHistory {} table = table.drop (table.length - maxHistoryEntries) :=
        fun _ => if_neg Bool.false_ne_true
      dsimp only
      rw [hall, htrim]
      generalize maxHistoryEntries = cap
      exact drop_reverse _ cap
  have hok : (importHistoryEntries {} entries ([] : List (Entry β))).1 = true := by
    unfold importHistoryEntries
    split <;> rfl
  unfold import_
  rw [Option.bind_some, normalize_export]
  dsimp only
  rw [if_neg Bool.false_ne_true, hok]
  exact ⟨hrows, rfl⟩

theorem length_le_one_of_reverse {entries : List (Entry β)} (hnodup : (entries.map Entry.id).Nodup)
    (h : (entries.filter fun e => e.id != "").reverse.take maxHistoryEntries
      = entries.take maxHistoryEntries) : entries.length ≤ 1 ∧ ∀ e ∈ entries, e.id ≠ "" := by
  match entries with
  | [] => exact ⟨Nat.zero_le _, fun e he => (by cases he)⟩
  | [e] =>
      refine ⟨Nat.le_refl _, fun e' he' hid => ?_⟩
      rw [List.mem_singleton.mp he'] at hid
      simp [hid, maxHistoryEntries] at h
  | newest :: older :: rest =>
      exfalso
      have htwo : (newest :: older :: rest).take maxHistoryEntries
          = newest :: older :: rest.take (maxHistoryEntries - 2) := by
        simp [maxHistoryEntries]
      rw [htwo] at h
      have hsplit := List.take_append_drop maxHistoryEntries
        ((newest :: older :: rest).filter fun e => e.id != "").reverse
      rw [h] at hsplit
      -- read backwards, the older one comes before the newest
      have hrow : [older, newest].Sublist (newest :: older :: rest) := by
        have hend := congrArg List.reverse hsplit
        rw [List.reverse_reverse] at hend
        refine List.Sublist.trans ?_ (List.filter_sublist (p := fun e => e.id != ""))
        rw [← hend]
        simp
      have hids := hrow.map Entry.id
      obtain ⟨hnewest, hnodup⟩ := List.nodup_cons.mp hnodup
      have hne : older.id ≠ newest.id := fun heq => hnewest (by rw [← heq]; exact List.mem_cons_self)
      have htail : [older.id, newest.id].Sublist ((older :: rest).map Entry.id) := by
        rcases List.sublist_cons_iff.mp hids with h | ⟨rest', heq, _⟩
        · exact h
        · exact absurd (List.cons.inj heq).1 hne
      exact hnewest (htail.subset (by simp))

theorem roundTrip_iff (nextId : Nat → String) {s : State β} (hnodup : (s.store.map Entry.id).Nodup) :
    RoundTrip nextId s ↔ s.store.length ≤ 1 ∧ ∀ e ∈ s.store, e.id ≠ "" := by
  constructor
  · intro h
    have hfirst := (h 0).1
    have hstep : (again nextId s 1).store
        = (s.store.filter fun e => e.id != "").reverse.take maxHistoryEntries :=
      (import_export nextId s _ hnodup).1
    exact length_le_one_of_reverse hnodup (hstep.symm.trans hfirst)
  · rintro ⟨hlen, hids⟩
    have hsame : (s.store.filter fun e => e.id != "").reverse.take maxHistoryEntries = s.store := by
      rw [List.filter_eq_self.mpr fun e he => bne_iff_ne.mpr (hids e he)]
      match hstore : s.store with
      | [] => simp
      | [e] => simp [maxHistoryEntries]
      | _ :: _ :: _ =>
          rw [hstore] at hlen
          simp at hlen
    have hcap : s.store.take maxHistoryEntries = s.store :=
      List.take_of_length_le (Nat.le_trans hlen (by decide))
    have hall : ∀ k, (again nextId s k).store = s.store := by
      intro k
      induction k with
      | zero => rfl
      | succ k ih =>
          have hstep := (import_export nextId (again nextId s k) (again nextId s k).store
            (by rw [ih]; exact hnodup)).1
          have hnext : (again nextId s (k + 1)).store
              = ((again nextId s k).store.filter fun e => e.id != "").reverse.take maxHistoryEntries :=
            hstep
          rw [hnext, ih, hsame]
    intro k
    refine ⟨by rw [hall, hcap], ?_⟩
    have htable := (import_export nextId (again nextId s k) (again nextId s k).store
      (by rw [hall]; exact hnodup)).2
    have hnext : (again nextId s (k + 1)).table.reverse = (again nextId s (k + 1)).store := htable
    rw [hnext, hall, hcap]

/-! ## What fails -/

/-- What an import puts in the cleared table. -/
def rows (x : Faults) (entries : List (Entry β)) : List (Entry β) :=
  if entries = [] then [] else trimHistory x (insertRows x entries [])

/-- **An import that fails leaves the history as it was if and only if it fails before the table is
cleared, or the table already was as it then leaves it.** -/
theorem allOrNothing_iff (nextId : Nat → String) (x : Faults) (imported : Option (List (Element β)))
    (s : State β) :
    AllOrNothing nextId x imported s ↔ ∀ entries,
      imported.bind (fun es => normalize nextId es.zipIdx) = some entries → x.clear = false →
        if entries ≠ [] ∧ (x.begin_ || x.prepare || x.commit) then s.table = []
        else x.load = true → s.table = rows x entries := by
  have hstate : ∀ table, ({ s with table } : State β) = s ↔ s.table = table := by
    intro table
    constructor
    · exact fun h => (congrArg State.table h).symm
    · rintro rfl
      rfl
  unfold AllOrNothing import_ importHistoryEntries rows
  cases imported.bind fun es => normalize nextId es.zipIdx with
  | none => simp
  | some entries =>
      simp only [Option.some.injEq, forall_eq']
      cases hclear : x.clear with
      | true => simp
      | false =>
          by_cases hnil : entries = []
          · cases hload : x.load with
            | true => simp [hnil, loadHistory, hload, hstate]
            | false => simp [hnil, loadHistory, hload]
          · by_cases hrefused : (x.begin_ || x.prepare || x.commit) = true
            · simp [hnil, hrefused, hstate]
            · cases hload : x.load with
              | true => simp [hnil, hrefused, loadHistory, hload, hstate]
              | false => simp [hnil, hrefused, loadHistory, hload]

/-- **An import gives the exported history back only where there is nothing to put in order, and a
failing import leaves it alone only where it has not cleared it.** -/
theorem history_import_iff (nextId : Nat → String) {s : State β}
    (hnodup : (s.store.map Entry.id).Nodup) :
    (RoundTrip nextId s ↔ s.store.length ≤ 1 ∧ ∀ e ∈ s.store, e.id ≠ "") ∧
      ∀ x imported, AllOrNothing nextId x imported s ↔ ∀ entries,
        imported.bind (fun es => normalize nextId es.zipIdx) = some entries → x.clear = false →
          if entries ≠ [] ∧ (x.begin_ || x.prepare || x.commit) then s.table = []
          else x.load = true → s.table = rows x entries :=
  ⟨roundTrip_iff nextId hnodup, fun x imported => allOrNothing_iff nextId x imported s⟩

/-! ## Two queries -/

/-- A walk, and a get before it. -/
def twoQueries : State String where
  table := [⟨"1-0", "get"⟩, ⟨"1-1", "walk"⟩]
  store := [⟨"1-1", "walk"⟩, ⟨"1-0", "get"⟩]

theorem history_import_iff_twoQueries :
    (RoundTrip toString twoQueries ↔
      twoQueries.store.length ≤ 1 ∧ ∀ e ∈ twoQueries.store, e.id ≠ "") ∧
    ∀ x imported, AllOrNothing toString x imported twoQueries ↔ ∀ entries,
      imported.bind (fun es => normalize toString es.zipIdx) = some entries → x.clear = false →
        if entries ≠ [] ∧ (x.begin_ || x.prepare || x.commit) then twoQueries.table = []
        else x.load = true → twoQueries.table = rows x entries :=
  history_import_iff toString (by decide)

/-- **The order is turned round, and a refused commit leaves nothing.** -/
theorem order_turned :
    (again toString twoQueries 1).store = twoQueries.store.reverse ∧
    ¬ RoundTrip toString twoQueries ∧
    (import_ toString { commit := true } (some (export_ twoQueries.store)) twoQueries).2.table = [] ∧
    ¬ AllOrNothing toString { commit := true } (some (export_ twoQueries.store)) twoQueries := by
  refine ⟨by decide, fun h => ?_, by decide, fun h => ?_⟩
  · exact absurd (h 0).1 (by decide)
  · have hkept := congrArg State.table (h (by decide))
    cases hkept

end SnmpLens.History
