import Mathlib.Algebra.Group.Nat.Defs
import SnmpLens.Simulator.Set

/-!
# Reading a tree

`pkg/simulator/pdu.go`. A GETNEXT is answered from `next`; a walk is a GETNEXT from
the name the last one returned, over and over; and a GETBULK is many of them in one
answer, so that what it returns is said in terms of GETNEXT alone.
-/

namespace SnmpLens.Simulator

open Utf8

def maxBulk : Nat := 1024

/-- `gosnmp.NoSuchObject`. -/
def noSuchObject : Asn1BER := .other 0x80

/-- `gosnmp.NoSuchInstance`. -/
def noSuchInstance : Asn1BER := .other 0x81

/-- `gosnmp.EndOfMibView`. -/
def endOfMibView : Asn1BER := .other 0x82

/-- A name a manager sent, as `parseArcs` leaves it: no arcs where there is an error. -/
def arcs (name : Octets) : Oid := (parseArcs name).toOption.getD []

namespace Entry

variable {κ : Type}

def varbind (e : Entry κ) (c : κ) : Varbind where
  name := e.name
  type := e.typ
  value := e.val.read c

/-- `v1Hidden`: SNMPv1 has no Counter64. -/
def v1Hidden (e : Entry κ) : Bool := e.typ == .counter64

end Entry

namespace Tree

variable {κ : Type}

/-- What a GETNEXT steps over. -/
def skip (v1 : Bool) : Option (Entry κ → Bool) := if v1 then some Entry.v1Hidden else none

/-- `missing`: the exception a GET for `o` earns. -/
def missing (t : Tree κ) (o : Oid) : Asn1BER :=
  -- every prefix of at least two arcs, the longest first
  let named := fun k => t.objects.contains (Oid.string (o.take (o.length - k)))
  if (List.range (o.length - 1)).any named then noSuchInstance else noSuchObject

/-- The loop of `get`, from the `i`-th varbind on. -/
def getVars (t : Tree κ) (v1 : Bool) (c : κ) : Nat → List Varbind → Except Nat (List Varbind)
  | _, [] => .ok []
  | i, v :: rest =>
      match (parseArcs v.name).toOption.bind t.get with
      | some e =>
          if v1 && e.v1Hidden then .error i
          else (t.getVars v1 c (i + 1) rest).map (e.varbind c :: ·)
      | none =>
          if v1 then .error i
          else
            (t.getVars v1 c (i + 1) rest).map
              ({ name := v.name, type := t.missing (arcs v.name), value := .other } :: ·)

/-- `get`. -/
def getRequest (t : Tree κ) (v1 : Bool) (vars : List Varbind) (c : κ) : Answer :=
  match t.getVars v1 c 0 vars with
  | .ok out => { vars := out }
  | .error i => { vars, status := .noSuchName, index := errIndex i vars.length }

/-- The loop of `getNext`, from the `i`-th varbind on. -/
def nextVars (t : Tree κ) (v1 : Bool) (c : κ) : Nat → List Varbind → Except Nat (List Varbind)
  | _, [] => .ok []
  | i, v :: rest =>
      match next t.entries (arcs v.name) (skip v1) with
      | some e => (t.nextVars v1 c (i + 1) rest).map (e.varbind c :: ·)
      | none =>
          if v1 then .error i
          else
            (t.nextVars v1 c (i + 1) rest).map
              ({ name := v.name, type := endOfMibView, value := .other } :: ·)

def getNext (t : Tree κ) (v1 : Bool) (vars : List Varbind) (c : κ) : Answer :=
  match t.nextVars v1 c 0 vars with
  | .ok out => { vars := out }
  | .error i => { vars, status := .noSuchName, index := errIndex i vars.length }

/-- One repetition: the row, where each column stands after it, and whether every one has ended. -/
def repetition (t : Tree κ) (c : κ) :
    List (Oid × Octets) → List Varbind × List (Oid × Octets) × Bool
  | [] => ([], [], true)
  | (last, name) :: rest =>
      let (row, columns, ended) := t.repetition c rest
      match next t.entries last none with
      | some e => (e.varbind c :: row, (e.oid, e.name) :: columns, false)
      | none =>
          ({ name, type := endOfMibView, value := .other } :: row, (last, name) :: columns, ended)

/-- The loop of `getBulk`, with so many repetitions to go. -/
def repetitions (t : Tree κ) (c : κ) :
    Nat → List Varbind → List (Oid × Octets) → List Varbind
  | 0, out, _ => out
  | reps + 1, out, columns =>
      if 0 < columns.length ∧ out.length + columns.length ≤ maxBulk then
        let (row, columns, ended) := t.repetition c columns
        if ended then out ++ row else t.repetitions c reps (out ++ row) columns
      else out

/-- `getBulk`. Both numbers are unsigned, as gosnmp holds them. -/
def getBulk (t : Tree κ) (nonRepeaters : UInt8) (maxRepetitions : UInt32) (vars : List Varbind)
    (c : κ) : Answer :=
  let n := min nonRepeaters.toNat vars.length
  let out := (t.getNext false (vars.take n) c).vars
  let columns := (vars.drop n).map fun v => (arcs v.name, v.name)
  { vars := t.repetitions c maxRepetitions.toNat out columns }

/-! ## One GETNEXT -/

/-- What a GETNEXT of `v` answers where no object is left. -/
def noMore (v1 : Bool) (v : Varbind) : Answer :=
  if v1 then { vars := [v], status := .noSuchName, index := 1 }
  else { vars := [{ name := v.name, type := endOfMibView, value := .other }] }

variable {t : Tree κ}

theorem getNext_some {v1 : Bool} {v : Varbind} {e : Entry κ}
    (h : next t.entries (arcs v.name) (skip v1) = some e) (c : κ) :
    t.getNext v1 [v] c = { vars := [e.varbind c] } := by
  unfold getNext nextVars
  rw [h]
  rfl

theorem getNext_none {v1 : Bool} {v : Varbind} (h : next t.entries (arcs v.name) (skip v1) = none)
    (c : κ) :
    t.getNext v1 [v] c = noMore v1 v := by
  unfold getNext nextVars
  rw [h]
  cases v1 <;> rfl

theorem arcs_name (h : t.WellFormed) {e : Entry κ} (he : e ∈ t.entries) :
    arcs e.name = e.oid := by
  obtain ⟨hfits, hname⟩ := h.named e he
  unfold arcs
  rw [hname, Oid.parseArcs_string hfits]
  rfl

theorem mem_seen {entries : List (Entry κ)} {v1 : Bool} {e : Entry κ} :
    e ∈ seen entries (skip v1) ↔ e ∈ entries ∧ ¬ (v1 = true ∧ e.typ = .counter64) := by
  unfold seen
  rw [List.mem_filter]
  cases v1 <;> simp [skip, Entry.v1Hidden]

/-- The variable a GETNEXT of `v` comes back with. -/
def nextOf (t : Tree κ) (v1 : Bool) (c : κ) (v : Varbind) : Varbind :=
  (t.getNext v1 [v] c).vars.headD v

/-- **One request moves the cursor onto the next object that can be seen.** -/
theorem arcs_nextOf (h : t.WellFormed) (v1 : Bool) (c : κ) (v : Varbind) :
    arcs (t.nextOf v1 c v).name
      = Cursor.advance Entry.oid (seen t.entries (skip v1)) (arcs v.name) := by
  have hnext := next_eq h.ordered.increasing (arcs v.name) (skip v1)
  unfold nextOf
  cases hafter : Cursor.after Entry.oid (seen t.entries (skip v1)) (arcs v.name) with
  | nil =>
      rw [hafter, List.head?_nil] at hnext
      rw [getNext_none hnext, Cursor.advance_of_nil hafter]
      cases v1 <;> rfl
  | cons e rest =>
      rw [hafter, List.head?_cons] at hnext
      rw [getNext_some hnext, Cursor.advance_of_cons hafter]
      have he : e ∈ seen t.entries (skip v1) :=
        (Cursor.mem_after.mp (hafter ▸ List.mem_cons_self)).1
      exact arcs_name h (mem_seen.mp he).1

/-! ## A walk -/

/-- What a manager asks GETNEXT of, the `i`-th time: the last variable it was given. -/
def asked (t : Tree κ) (v1 : Bool) (clocks : Nat → κ) (start : Varbind) : Nat → Varbind
  | 0 => start
  | i + 1 => t.nextOf v1 (clocks i) (t.asked v1 clocks start i)

theorem arcs_asked (h : t.WellFormed) (v1 : Bool) (clocks : Nat → κ) (start : Varbind) (i : Nat) :
    arcs (t.asked v1 clocks start i).name
      = (Cursor.advance Entry.oid (seen t.entries (skip v1)))^[i] (arcs start.name) := by
  induction i with
  | zero => rfl
  | succ i ih => rw [asked, arcs_nextOf h, ih, Function.iterate_succ_apply']

theorem next_asked (h : t.WellFormed) (v1 : Bool) (clocks : Nat → κ) (start : Varbind) (i : Nat) :
    next t.entries (arcs (t.asked v1 clocks start i).name) (skip v1)
      = (Cursor.after Entry.oid (seen t.entries (skip v1)) (arcs start.name))[i]? := by
  have hs := sorted_seen h.ordered.increasing (skip v1)
  rw [next_eq h.ordered.increasing, arcs_asked h, Cursor.after_advance_iterate hs,
    List.head?_drop]

/--
**A walk is complete.**

Whatever SETs an agent has been served, GETNEXT asked over and over from the last
name visits, in order and each once, the objects behind the start that the version
can see, and then answers that there is no more.
-/
theorem getNext_walk {toBigInt : Value → Int} {objects : List (Object κ)} {first : Tree κ}
    (h : newTree objects = .ok first) (rowStatus : Option (Octets → Option Octets))
    (requests : List (Version × List Varbind)) (v1 : Bool) (clocks : Nat → κ) (start : Varbind) :
    let t := (Agent.serve toBigInt { tree := first, rowStatus } requests).tree
    ∃ visited : List (Entry κ),
      (∀ e, e ∈ visited ↔
        e ∈ t.entries ∧ arcs start.name < e.oid ∧ ¬ (v1 = true ∧ e.typ = .counter64)) ∧
      (visited.map Entry.oid).Pairwise (· < ·) ∧
      (∀ i (hi : i < visited.length), t.getNext v1 [t.asked v1 clocks start i] (clocks i)
        = { vars := [visited[i].varbind (clocks i)] }) ∧
      ∀ i, visited.length ≤ i → t.getNext v1 [t.asked v1 clocks start i] (clocks i)
        = noMore v1 (t.asked v1 clocks start i) := by
  intro t
  have ht : t.WellFormed := Agent.wellFormed_serve (wellFormed_newTree h) requests
  refine ⟨Cursor.after Entry.oid (seen t.entries (skip v1)) (arcs start.name), ?_, ?_, ?_, ?_⟩
  · intro e
    rw [Cursor.mem_after, mem_seen]
    constructor
    · rintro ⟨⟨he, hvisible⟩, hlt⟩
      exact ⟨he, hlt, hvisible⟩
    · rintro ⟨he, hlt, hvisible⟩
      exact ⟨⟨he, hvisible⟩, hlt⟩
  · exact Cursor.increasing_after (sorted_seen ht.ordered.increasing _)
  · intro i hi
    refine getNext_some ?_ _
    rw [next_asked ht, List.getElem?_eq_getElem hi]
  · intro i hi
    refine getNext_none ?_ _
    rw [next_asked ht, List.getElem?_eq_none hi]

/-! ### A name and two counters, one of them too wide for SNMPv1 -/

/-- `sysName.0` and the octets of an interface, narrow and wide. -/
def nameAndCounters : List (Object Unit) :=
  [{ oid := Strings.dotted [1, 3, 6, 1, 2, 1, 31, 1, 1, 1, 6, 1]
     type := .counter64
     value := some (const Unit (.uint64 7)) },
    Agent.sysName,
    { oid := Strings.dotted [1, 3, 6, 1, 2, 1, 2, 2, 1, 10, 1]
      type := .counter32
      value := some (const Unit (.uint32 7)) }]

theorem getNext_walk_v1 : ∃ t : Tree Unit, newTree nameAndCounters = .ok t ∧
    ∃ visited : List (Entry Unit),
      (∀ e, e ∈ visited ↔
        e ∈ t.entries ∧ arcs [49] < e.oid ∧ ¬ (true = true ∧ e.typ = .counter64)) ∧
      (visited.map Entry.oid).Pairwise (· < ·) ∧
      (∀ i (hi : i < visited.length),
        t.getNext true [t.asked true (fun _ => ()) ⟨[49], .other 5, .other⟩ i] ()
          = { vars := [visited[i].varbind ()] }) ∧
      ∀ i, visited.length ≤ i →
        t.getNext true [t.asked true (fun _ => ()) ⟨[49], .other 5, .other⟩ i] ()
          = noMore true (t.asked true (fun _ => ()) ⟨[49], .other 5, .other⟩ i) := by
  have hmade : (newTree nameAndCounters).isOk = true := by decide
  cases ht : newTree nameAndCounters with
  | error err => exact absurd hmade (by simp [ht, Except.isOk, Except.toBool])
  | ok t =>
      exact ⟨t, rfl, @getNext_walk _ Agent.plainInt _ _ ht none [] true (fun _ => ())
        ⟨[49], .other 5, .other⟩⟩

/-! ## GETBULK -/

/-- Whether a GETNEXT of `v` finds no object. -/
def atEnd (t : Tree κ) (v : Varbind) : Bool := (next t.entries (arcs v.name) none).isNone

/-- Row `i` of a GETBULK: every repeater, as far on as `i + 1` GETNEXTs bring it. -/
def bulkRow (t : Tree κ) (c : κ) (repeaters : List Varbind) (i : Nat) : List Varbind :=
  repeaters.map (t.nextOf false c)^[i + 1]

/-- Whether every repeater has run off the end in row `i`. -/
def rowEnded (t : Tree κ) (c : κ) (repeaters : List Varbind) (i : Nat) : Bool :=
  repeaters.all fun v => t.atEnd ((t.nextOf false c)^[i] v)

theorem nextOf_some {v : Varbind} {e : Entry κ} (h : next t.entries (arcs v.name) none = some e)
    (c : κ) : t.nextOf false c v = e.varbind c := by
  unfold nextOf
  rw [@getNext_some _ t false v e h c]
  rfl

theorem nextOf_none {v : Varbind} (h : next t.entries (arcs v.name) none = none) (c : κ) :
    t.nextOf false c v = { name := v.name, type := endOfMibView, value := .other } := by
  unfold nextOf
  rw [@getNext_none _ t false v h c]
  rfl

theorem nextVars_eq (t : Tree κ) (c : κ) (i : Nat) (vars : List Varbind) :
    t.nextVars false c i vars = .ok (vars.map (t.nextOf false c)) := by
  induction vars generalizing i with
  | nil => rfl
  | cons v rest ih =>
      unfold nextVars
      rw [ih (i + 1), List.map_cons, show skip (κ := κ) false = none from rfl]
      cases hnext : next t.entries (arcs v.name) none with
      | none =>
          rw [nextOf_none hnext]
          rfl
      | some e =>
          rw [nextOf_some hnext]
          rfl

theorem getNext_vars (t : Tree κ) (c : κ) (vars : List Varbind) :
    (t.getNext false vars c).vars = vars.map (t.nextOf false c) := by
  unfold getNext
  rw [nextVars_eq]

/-- Where the columns of a GETBULK stand, from the variables last answered. -/
def columnsOf (vs : List Varbind) : List (Oid × Octets) := vs.map fun v => (arcs v.name, v.name)

/-- **A repetition is one GETNEXT of every column.** -/
theorem repetition_eq (h : t.WellFormed) (c : κ) (vs : List Varbind) :
    t.repetition c (columnsOf vs)
      = (vs.map (t.nextOf false c), columnsOf (vs.map (t.nextOf false c)), vs.all t.atEnd) := by
  induction vs with
  | nil => rfl
  | cons v rest ih =>
      have hrest : t.repetition c (columnsOf (v :: rest)) = t.repetition c
        ((arcs v.name, v.name) :: columnsOf rest) := rfl
      rw [hrest]
      unfold repetition
      rw [ih, List.map_cons, List.all_cons]
      unfold atEnd
      cases hnext : next t.entries (arcs v.name) none with
      | none =>
          rw [nextOf_none hnext]
          rfl
      | some e =>
          have he : e ∈ t.entries := by
            have hhead := next_eq h.ordered.increasing (arcs v.name) (skip false)
            rw [show skip (κ := κ) false = none from rfl, hnext] at hhead
            have hmem := Cursor.mem_after.mp (List.mem_of_head? hhead.symm)
            exact (List.mem_filter.mp hmem.1).1
          have hcolumn : ∀ ws, columnsOf (e.varbind c :: ws) = (e.oid, e.name) :: columnsOf ws :=
            fun ws => congrArg (fun o => (o, e.name) :: columnsOf ws) (arcs_name h he)
          rw [nextOf_some hnext, hcolumn]
          rfl

/-- What the loop adds, and the only three reasons it stops. -/
theorem repetitions_eq (h : t.WellFormed) (c : κ) (reps : Nat) (out : List Varbind)
    (vs : List Varbind) :
    ∃ rows, t.repetitions c reps out (columnsOf vs)
        = out ++ (List.range rows).flatMap (t.bulkRow c vs) ∧
      rows ≤ reps ∧
      (∀ i < rows, out.length + (i + 1) * vs.length ≤ maxBulk) ∧
      (∀ i, i + 1 < rows → t.rowEnded c vs i = false) ∧
      (vs ≠ [] → rows = reps ∨ maxBulk < out.length + (rows + 1) * vs.length ∨
        ∃ i, rows = i + 1 ∧ t.rowEnded c vs i = true) := by
  induction reps generalizing out vs with
  | zero => exact ⟨0, by simp [repetitions], Nat.le_refl _, by simp, by simp, fun _ => .inl rfl⟩
  | succ reps ih =>
      have hlength : (columnsOf vs).length = vs.length := List.length_map _
      unfold repetitions
      rw [repetition_eq h, hlength]
      dsimp only
      by_cases hroom : 0 < vs.length ∧ out.length + vs.length ≤ maxBulk
      · rw [if_pos hroom]
        by_cases hended : vs.all t.atEnd = true
        · -- the last row there is
          rw [if_pos hended]
          refine ⟨1, by simp [bulkRow], by omega, ?_, by omega, fun _ => .inr (.inr ⟨0, rfl, hended⟩)⟩
          intro i hi
          obtain rfl : i = 0 := by omega
          omega
        · rw [if_neg hended]
          obtain ⟨rows, heq, hle, hcap, hgoing, hstop⟩ :=
            ih (out ++ vs.map (t.nextOf false c)) (vs.map (t.nextOf false c))
          rw [List.length_append, List.length_map] at hcap hstop
          have hrow : t.bulkRow c (vs.map (t.nextOf false c)) = fun i => t.bulkRow c vs (i + 1) := by
            funext i
            unfold bulkRow
            rw [List.map_map]
            rfl
          have hrowEnded : ∀ i, t.rowEnded c (vs.map (t.nextOf false c)) i
              = t.rowEnded c vs (i + 1) := by
            intro i
            unfold rowEnded
            rw [List.all_map]
            rfl
          refine ⟨rows + 1, ?_, by omega, ?_, ?_, ?_⟩
          · rw [heq, List.range_succ_eq_map, List.flatMap_cons, List.flatMap_map,
              List.append_assoc, hrow]
            rfl
          · intro i hi
            cases i with
            | zero => omega
            | succ i =>
                have := hcap i (by omega)
                rw [Nat.succ_mul]
                omega
          · intro i hi
            cases i with
            | zero => simpa [rowEnded] using hended
            | succ i => exact (hrowEnded i).symm.trans (hgoing i (by omega))
          · intro hne
            rcases hstop (by simpa using hne) with hreps | hfull | ⟨i, hi, hlast⟩
            · exact .inl (by omega)
            · refine .inr (.inl ?_)
              rw [Nat.succ_mul]
              omega
            · exact .inr (.inr ⟨i + 1, by omega, (hrowEnded i).symm.trans hlast⟩)
      · rw [if_neg hroom]
        refine ⟨0, by simp, by omega, by omega, by omega, fun hne => .inr (.inl ?_)⟩
        have := List.length_pos_of_ne_nil hne
        omega

/--
**GETBULK is GETNEXT, many times over.**

Whatever SETs an agent has been served: one GETNEXT of each non-repeater, then whole
rows, row `i` holding each repeater `i + 1` GETNEXTs on. The rows stop after
max-repetitions of them, or at the cap, or with the first row in which every
repeater has run off the end.
-/
theorem getBulk_rows {toBigInt : Value → Int} {objects : List (Object κ)} {first : Tree κ}
    (h : newTree objects = .ok first) (rowStatus : Option (Octets → Option Octets))
    (requests : List (Version × List Varbind)) (nonRepeaters : UInt8) (maxRepetitions : UInt32)
    (vars : List Varbind) (c : κ) :
    let t := (Agent.serve toBigInt { tree := first, rowStatus } requests).tree
    let n := min nonRepeaters.toNat vars.length
    let repeaters := vars.drop n
    ∃ rows, t.getBulk nonRepeaters maxRepetitions vars c
        = { vars := (vars.take n).map (t.nextOf false c)
              ++ (List.range rows).flatMap (t.bulkRow c repeaters) } ∧
      rows ≤ maxRepetitions.toNat ∧
      (∀ i < rows, n + (i + 1) * repeaters.length ≤ maxBulk) ∧
      (∀ i, i + 1 < rows → t.rowEnded c repeaters i = false) ∧
      (repeaters ≠ [] → rows = maxRepetitions.toNat ∨
        maxBulk < n + (rows + 1) * repeaters.length ∨
        ∃ i, rows = i + 1 ∧ t.rowEnded c repeaters i = true) := by
  intro t n repeaters
  have ht : t.WellFormed := Agent.wellFormed_serve (wellFormed_newTree h) requests
  have hout : (t.getNext false (vars.take n) c).vars.length = n := by
    rw [getNext_vars, List.length_map, List.length_take]
    exact Nat.min_eq_left (Nat.min_le_right _ _)
  obtain ⟨rows, heq, hle, hcap, hgoing, hstop⟩ :=
    repetitions_eq ht c maxRepetitions.toNat (t.getNext false (vars.take n) c).vars repeaters
  rw [hout] at hcap hstop
  refine ⟨rows, ?_, hle, hcap, hgoing, hstop⟩
  unfold getBulk
  dsimp only
  rw [← getNext_vars, ← heq]
  rfl

theorem getBulk_rows_whole : ∃ t : Tree Unit, newTree nameAndCounters = .ok t ∧
    ∃ rows, t.getBulk 0 10 [⟨[49], .other 5, .other⟩] ()
        = { vars := (List.range rows).flatMap (t.bulkRow () [⟨[49], .other 5, .other⟩]) } ∧
      rows = 4 := by
  have hmade : ((newTree nameAndCounters).toOption.map fun t =>
      (t.getBulk 0 10 [⟨[49], .other 5, .other⟩] ()).vars.length) = some 4 := by decide
  cases ht : newTree nameAndCounters with
  | error err => exact absurd hmade (by simp [ht, Except.toOption])
  | ok t =>
      obtain ⟨rows, heq, _⟩ := @getBulk_rows _ Agent.plainInt _ _ ht none [] 0 10
        [⟨[49], .other 5, .other⟩] ()
      refine ⟨t, rfl, rows, heq, ?_⟩
      have hlen : (t.getBulk 0 10 [⟨[49], .other 5, .other⟩] ()).vars.length = 4 := by
        simpa [ht, Except.toOption] using hmade
      have hrows : (t.getBulk 0 10 [⟨[49], .other 5, .other⟩] ()).vars.length = rows := by
        rw [show t.getBulk 0 10 [⟨[49], .other 5, .other⟩] () = _ from heq]
        simp [bulkRow, List.length_flatMap]
      omega

end Tree

end SnmpLens.Simulator
