import Mathlib.Data.List.Sort
import SnmpLens.Lib.Cursor
import SnmpLens.Lib.Rfc3339
import SnmpLens.Storage.DataPoints

/-!
# Ranges of the history

`QueryDataPoints` and `Cleanup` of `pkg/storage/storage.go`. The column `timestamp` is
text and SQL compares it as text; what the scheduler writes there is `RFC3339Nano`, which
drops the zeros at the end of the fraction, and a bound comes in whatever layout its
component prints: `toISOString` with three digits, the cutoff of `Cleanup` with none.

The text order of two stamps is their order in time but where one fraction continues the
other (`Rfc3339.text_lt_iff`). So the results here are exact conditions on the digits.
-/

namespace SnmpLens.Storage

open Rfc3339

/-! ## The queries -/

/-- `ORDER BY timestamp`. -/
def byTimestamp (p q : DataPoint) : Prop := p.timestamp ≤ q.timestamp

instance : DecidableRel byTimestamp := fun p q => String.decLE p.timestamp q.timestamp

/-- The bounds in the `WHERE` clause; an empty one is left out. -/
def inBounds (lower upper : String) (p : DataPoint) : Bool :=
  (lower == "" || decide (lower ≤ p.timestamp)) && (upper == "" || decide (p.timestamp ≤ upper))

/-- `QueryDataPoints`: all of them, or the last `limit`. -/
def DB.queryDataPoints (db : DB) (sessionID lower upper : String) (limit : Int) :
    List DataPoint :=
  let sorted := (db.points.filter fun p =>
    p.sessionID == sessionID && inBounds lower upper p).insertionSort byTimestamp
  if 0 < limit then sorted.drop (sorted.length - limit.toNat) else sorted

/-- The first statement of `Cleanup`, with the cutoff as it prints it: to the second. -/
def DB.cleanup (db : DB) (cutoff : Instant) : DB := db.cleanupPoints cutoff.whole.text

/-! ## What they stand for -/

/-- A sample with the instant of its tick: `RFC3339Nano` is how the scheduler stamps it. -/
structure Reading where
  tick : Instant
  point : DataPoint
  stamped : point.timestamp = tick.nano.text

/-- A bound as it is passed: empty for none. -/
def boundText (b : Option Stamp) : String := (b.map Stamp.text).getD ""

/-- The instant of a reading lies in a range. -/
def Reading.within (r : Reading) (lower upper : Option Stamp) : Bool :=
  lower.all (fun b => decide (b.instant ≤ (r.tick.ns : ℚ) / 10 ^ 9))
    && upper.all fun b => decide ((r.tick.ns : ℚ) / 10 ^ 9 ≤ b.instant)

/-- The answer is exactly the session's readings in the range, in order of time. -/
def Answers (rows : List Reading) (sessionID : String) (lower upper : Option Stamp)
    (answer : List DataPoint) : Prop :=
  ∃ rs : List Reading, answer = rs.map Reading.point
    ∧ rs.Perm (rows.filter fun r => r.point.sessionID == sessionID && r.within lower upper)
    ∧ rs.Pairwise fun r q => r.tick.ns ≤ q.tick.ns

/-- Exactly the readings from before an instant are gone. -/
def KeepsSince (rows : List Reading) (ns : Nat) (left : List DataPoint) : Prop :=
  left = (rows.filter fun r => decide (ns ≤ r.tick.ns)).map Reading.point

/-- The first of two stamps is read as the earlier one: its digits go on where the other's end,
or it is earlier and the other's do not go on after its own. -/
def Precedes (a b : Stamp) : Prop := a.Extends b ∨ a.instant < b.instant ∧ ¬ b.Extends a

/-- No stamp of the session is misread. -/
structure Legible (rows : List Reading) (sessionID : String) (lower upper : Option Stamp) :
    Prop where
  /-- In the range, no fraction continues that of the lower bound or is continued by that of
  the upper. -/
  kept : ∀ r ∈ rows, r.point.sessionID = sessionID → r.within lower upper = true →
    (∀ b ∈ lower, ¬ r.tick.nano.Extends b) ∧ ∀ b ∈ upper, ¬ b.Extends r.tick.nano
  /-- Outside it, some bound is not misread. -/
  shut : ∀ r ∈ rows, r.point.sessionID = sessionID → r.within lower upper = false →
    (∃ b ∈ lower, Precedes r.tick.nano b) ∨ ∃ b ∈ upper, Precedes b r.tick.nano
  /-- In the range, no fraction continues another one of the same second. -/
  apart : ∀ r ∈ rows, ∀ q ∈ rows, r.point.sessionID = sessionID → q.point.sessionID = sessionID →
    r.within lower upper = true → q.within lower upper = true →
    ¬ r.tick.nano.Extends q.tick.nano

/-! ## Reading the text -/

theorem timestamp_lt_iff (r : Reading) (b : Stamp) :
    r.point.timestamp < b.text ↔ Precedes r.tick.nano b := by
  rw [r.stamped, text_lt_iff, Precedes]

theorem lt_timestamp_iff (r : Reading) (b : Stamp) :
    b.text < r.point.timestamp ↔ Precedes b r.tick.nano := by
  rw [r.stamped, text_lt_iff, Precedes]

theorem text_ne_empty (b : Stamp) : b.text ≠ "" := by
  intro h
  have hlist := congrArg String.toList h
  rw [Stamp.text, String.toList_ofList] at hlist
  obtain ⟨_, htail⟩ := List.append_eq_nil_iff.mp hlist
  cases hf : b.fraction <;> rw [hf] at htail <;> cases htail

theorem inBounds_iff (r : Reading) (lower upper : Option Stamp) :
    inBounds (boundText lower) (boundText upper) r.point = true ↔
      (∀ b ∈ lower, ¬ Precedes r.tick.nano b) ∧ ∀ b ∈ upper, ¬ Precedes b r.tick.nano := by
  have hlower : (boundText lower == "" || decide (boundText lower ≤ r.point.timestamp)) = true
      ↔ ∀ b ∈ lower, ¬ Precedes r.tick.nano b := by
    cases lower with
    | none => simp [boundText]
    | some b =>
        have hne : (b.text == "") = false := beq_eq_false_iff_ne.mpr (text_ne_empty b)
        simp only [boundText, Option.map_some, Option.getD_some, hne, Bool.false_or,
          Option.mem_some_iff, forall_eq', ← timestamp_lt_iff]
        exact decide_eq_true_iff
  have hupper : (boundText upper == "" || decide (r.point.timestamp ≤ boundText upper)) = true
      ↔ ∀ b ∈ upper, ¬ Precedes b r.tick.nano := by
    cases upper with
    | none => simp [boundText]
    | some b =>
        have hne : (b.text == "") = false := beq_eq_false_iff_ne.mpr (text_ne_empty b)
        simp only [boundText, Option.map_some, Option.getD_some, hne, Bool.false_or,
          Option.mem_some_iff, forall_eq', ← lt_timestamp_iff]
        exact decide_eq_true_iff
  unfold inBounds
  rw [Bool.and_eq_true, hlower, hupper]

theorem within_iff (r : Reading) (lower upper : Option Stamp) :
    r.within lower upper = true ↔
      (∀ b ∈ lower, b.instant ≤ r.tick.nano.instant) ∧
        ∀ b ∈ upper, r.tick.nano.instant ≤ b.instant := by
  unfold Reading.within
  rw [Bool.and_eq_true, Option.all_eq_true, Option.all_eq_true, Instant.instant_nano]
  simp only [decide_eq_true_eq, Option.mem_def]

theorem tick_eq_of_point {r q : Reading} (h : r.point = q.point) : r.tick.ns = q.tick.ns := by
  have htext : r.tick.nano.text = q.tick.nano.text := by rw [← r.stamped, ← q.stamped, h]
  have hle := le_of_eq (instant_eq_of_text htext)
  have hge := ge_of_eq (instant_eq_of_text htext)
  exact Nat.le_antisymm (Instant.nano_le_iff.mp hle) (Instant.nano_le_iff.mp hge)

theorem within_eq_of_point {r q : Reading} (h : r.point = q.point) (lower upper : Option Stamp) :
    r.within lower upper = q.within lower upper := by
  unfold Reading.within
  rw [tick_eq_of_point h]

/-- **What is selected is what lies in the range**, for one reading: where it lies in the range
no fraction continues a bound's the wrong way, and where it does not some bound is not misread. -/
theorem selected_iff (r : Reading) (lower upper : Option Stamp) :
    (inBounds (boundText lower) (boundText upper) r.point = r.within lower upper) ↔
      (r.within lower upper = true →
        (∀ b ∈ lower, ¬ r.tick.nano.Extends b) ∧ ∀ b ∈ upper, ¬ b.Extends r.tick.nano) ∧
      (r.within lower upper = false →
        (∃ b ∈ lower, Precedes r.tick.nano b) ∨ ∃ b ∈ upper, Precedes b r.tick.nano) := by
  have hin := inBounds_iff r lower upper
  cases hw : r.within lower upper with
  | true =>
      obtain ⟨hlo, hhi⟩ := (within_iff r lower upper).mp hw
      rw [hin]
      simp only [forall_true_left, Bool.true_eq_false, false_implies, and_true]
      -- in the range no bound is later, so only a continued fraction can keep it out
      refine and_congr ?_ ?_
      · refine forall₂_congr fun b hb => not_congr ?_
        have := hlo b hb
        exact ⟨fun h => h.resolve_right fun h' => absurd h'.1 (not_lt.mpr this), .inl⟩
      · refine forall₂_congr fun b hb => not_congr ?_
        have := hhi b hb
        exact ⟨fun h => h.resolve_right fun h' => absurd h'.1 (not_lt.mpr this), .inl⟩
  | false =>
      rw [← Bool.not_eq_true, hin]
      simp only [Bool.false_eq_true, false_implies, forall_true_left, true_and]
      push Not
      constructor
      · intro h
        by_cases hlo : ∃ b ∈ lower, Precedes r.tick.nano b
        · exact .inl hlo
        · exact .inr (h fun b hb hp => hlo ⟨b, hb, hp⟩)
      · rintro (⟨b, hb, hp⟩ | h) hall
        · exact absurd hp (hall b hb)
        · exact h

/-! ## The query -/

instance : Std.Total byTimestamp := ⟨fun p q => String.le_total p.timestamp q.timestamp⟩

instance : IsTrans DataPoint byTimestamp := ⟨fun _ _ _ h h' => String.le_trans h h'⟩

theorem sorted_queryDataPoints (db : DB) (sessionID lower upper : String) :
    (db.queryDataPoints sessionID lower upper 0).Pairwise byTimestamp ∧
      (db.queryDataPoints sessionID lower upper 0).Perm
        (db.points.filter fun p => p.sessionID == sessionID && inBounds lower upper p) :=
  ⟨List.pairwise_insertionSort _ _, List.perm_insertionSort _ _⟩

variable {db : DB} {rows : List Reading} {sessionID : String} {lower upper : Option Stamp}

theorem selected_of_answers (hrows : db.points = rows.map Reading.point)
    (h : Answers rows sessionID lower upper
      (db.queryDataPoints sessionID (boundText lower) (boundText upper) 0))
    {r : Reading} (hr : r ∈ rows) (hid : r.point.sessionID = sessionID) :
    inBounds (boundText lower) (boundText upper) r.point = r.within lower upper := by
  obtain ⟨rs, hanswer, hperm, -⟩ := h
  have hsel := (sorted_queryDataPoints db sessionID (boundText lower) (boundText upper)).2
  rw [hanswer, hrows] at hsel
  have hmem : r.point ∈ rs.map Reading.point ↔
      inBounds (boundText lower) (boundText upper) r.point = true := by
    rw [hsel.mem_iff, List.mem_filter]
    simp [hid, List.mem_map_of_mem hr]
  have hmem' : r.point ∈ rs.map Reading.point ↔ r.within lower upper = true := by
    rw [List.mem_map]
    constructor
    · -- another reading of the same point is of the same instant
      rintro ⟨q, hq, heq⟩
      have hq' := (List.mem_filter.mp (hperm.subset hq)).2
      rw [Bool.and_eq_true] at hq'
      rw [← within_eq_of_point heq]
      exact hq'.2
    · intro hw
      refine ⟨r, hperm.symm.subset (List.mem_filter.mpr ⟨hr, ?_⟩), rfl⟩
      simp [hid, hw]
  exact Bool.eq_iff_iff.mpr (hmem.symm.trans hmem')

/-- A right answer is in order, so no fraction in it continues another. -/
theorem apart_of_answers
    (h : Answers rows sessionID lower upper
      (db.queryDataPoints sessionID (boundText lower) (boundText upper) 0))
    {r q : Reading} (hr : r ∈ rows) (hq : q ∈ rows) (hidr : r.point.sessionID = sessionID)
    (hidq : q.point.sessionID = sessionID) (hwr : r.within lower upper = true)
    (hwq : q.within lower upper = true) : ¬ r.tick.nano.Extends q.tick.nano := by
  intro hext
  obtain ⟨rs, hanswer, hperm, hchron⟩ := h
  have hsorted := (sorted_queryDataPoints db sessionID (boundText lower) (boundText upper)).1
  rw [hanswer, List.pairwise_map] at hsorted
  have hrs : r ∈ rs := hperm.symm.subset (List.mem_filter.mpr ⟨hr, by simp [hidr, hwr]⟩)
  have hqs : q ∈ rs := hperm.symm.subset (List.mem_filter.mpr ⟨hq, by simp [hidq, hwq]⟩)
  -- the longer fraction has the smaller text and is the later instant
  have htext : r.point.timestamp < q.point.timestamp := by
    rw [r.stamped, q.stamped, text_lt_iff]
    exact .inl hext
  have hlater : ¬ r.tick.ns ≤ q.tick.ns := by
    rw [← Instant.nano_le_iff]
    exact not_le.mpr (hext.instant_lt r.tick.getLast_nano)
  have hne : r ≠ q := by
    intro heq
    exact hlater (heq ▸ Nat.le_refl _)
  rcases Cursor.rel_or_rel (hsorted.and hchron) hrs hqs hne with ⟨-, hle⟩ | ⟨hle, -⟩
  · exact hlater hle
  · exact hle htext

/-- **The query is right exactly where no stamp is misread.** -/
theorem answers_iff (hrows : db.points = rows.map Reading.point) :
    Answers rows sessionID lower upper
        (db.queryDataPoints sessionID (boundText lower) (boundText upper) 0) ↔
      Legible rows sessionID lower upper := by
  constructor
  · intro h
    refine ⟨?_, ?_, ?_⟩
    · intro r hr hid
      exact ((selected_iff r lower upper).mp (selected_of_answers hrows h hr hid)).1
    · intro r hr hid
      exact ((selected_iff r lower upper).mp (selected_of_answers hrows h hr hid)).2
    · intro r hr q hq hidr hidq hwr hwq
      exact apart_of_answers h hr hq hidr hidq hwr hwq
  · rintro ⟨hkept, hshut, hapart⟩
    have hfilter : (rows.map Reading.point).filter (fun p =>
          p.sessionID == sessionID && inBounds (boundText lower) (boundText upper) p)
        = (rows.filter fun r => r.point.sessionID == sessionID && r.within lower upper).map
            Reading.point := by
      rw [List.filter_map]
      congr 1
      refine List.filter_congr fun r hr => ?_
      change (r.point.sessionID == sessionID &&
        inBounds (boundText lower) (boundText upper) r.point) = _
      by_cases hid : r.point.sessionID = sessionID
      · rw [(selected_iff r lower upper).mpr ⟨hkept r hr hid, hshut r hr hid⟩]
      · have hno : (r.point.sessionID == sessionID) = false := beq_eq_false_iff_ne.mpr hid
        rw [hno, Bool.false_and, Bool.false_and]
    refine ⟨(rows.filter fun r => r.point.sessionID == sessionID && r.within lower upper).insertionSort
      fun r q => byTimestamp r.point q.point, ?_, List.perm_insertionSort _ _, ?_⟩
    · rw [List.map_insertionSort _ byTimestamp _ _ fun _ _ _ _ => Iff.rfl, ← hfilter, ← hrows]
      rfl
    · refine (List.pairwise_insertionSort _ _).imp_of_mem fun {r q} hr hq hle => ?_
      rw [List.mem_insertionSort, List.mem_filter, Bool.and_eq_true, beq_iff_eq] at hr hq
      -- the later of the two would have the smaller text only if its fraction continued the other's
      by_contra hlt
      have hext := hapart r hr.1 q hq.1 hr.2.1 hq.2.1 hr.2.2 hq.2.2
      refine hle ?_
      rw [r.stamped, q.stamped, text_lt_iff]
      refine .inr ⟨not_le.mp fun hle' => hlt (Instant.nano_le_iff.mp hle'), hext⟩

/-! ## The cleanup -/

/-- **What the cutoff deletes**: everything of an earlier second, and of its own second whatever
has a fraction. -/
theorem timestamp_lt_cutoff_iff (r : Reading) (cutoff : Instant) :
    r.point.timestamp < cutoff.whole.text ↔ r.tick.second < cutoff.second ∨
      r.tick.second = cutoff.second ∧ r.tick.ns % 10 ^ 9 ≠ 0 := by
  have hfrac : r.tick.ns % 10 ^ 9 ≠ 0 ↔ r.tick.nano.fraction ≠ [] :=
    r.tick.fraction_nano_eq_nil.not.symm
  rw [timestamp_lt_iff, Precedes, hfrac]
  have hno : ¬ cutoff.whole.Extends r.tick.nano := by
    rintro ⟨-, hprefix, hne⟩
    exact hne (List.prefix_nil.mp hprefix)
  have hext : r.tick.nano.Extends cutoff.whole ↔
      r.tick.second = cutoff.second ∧ r.tick.nano.fraction ≠ [] := by
    constructor
    · rintro ⟨hsec, -, hne⟩
      exact ⟨hsec, fun h => hne h.symm⟩
    · rintro ⟨hsec, hne⟩
      exact ⟨hsec, List.nil_prefix, fun h => hne h.symm⟩
  have hlt : r.tick.nano.instant < cutoff.whole.instant ↔ r.tick.second < cutoff.second := by
    rw [instant_lt_iff]
    constructor
    · rintro (h | ⟨-, h⟩)
      · exact h
      · exact absurd h (not_lt.mpr (decimals_nonneg _))
    · exact .inl
  rw [hext, hlt]
  simp only [hno, not_false_eq_true, and_true]
  exact or_comm

/-- Of the points of one list, a cutoff keeps exactly those from an instant on iff its text
tells them apart. -/
theorem keepsSince_iff (hrows : db.points = rows.map Reading.point) (cutoff : Instant) (ns : Nat) :
    KeepsSince rows ns (db.cleanup cutoff).points ↔
      ∀ r ∈ rows, r.point.timestamp < cutoff.whole.text ↔ r.tick.ns < ns := by
  have hleft : (db.cleanup cutoff).points = (rows.filter fun r =>
      !decide (r.point.timestamp < cutoff.whole.text)).map Reading.point := by
    change db.points.filter _ = _
    rw [hrows, List.filter_map]
    rfl
  unfold KeepsSince
  rw [hleft]
  constructor
  · intro h r hr
    have hkept : r.point ∈ (rows.filter fun r =>
          !decide (r.point.timestamp < cutoff.whole.text)).map Reading.point ↔
        ¬ r.point.timestamp < cutoff.whole.text := by
      rw [List.mem_map]
      constructor
      · rintro ⟨q, hq, heq⟩
        rw [← heq]
        simpa using (List.mem_filter.mp hq).2
      · intro hno
        exact ⟨r, List.mem_filter.mpr ⟨hr, by simpa using hno⟩, rfl⟩
    have hsince : r.point ∈ (rows.filter fun r => decide (ns ≤ r.tick.ns)).map Reading.point ↔
        ns ≤ r.tick.ns := by
      rw [List.mem_map]
      constructor
      · rintro ⟨q, hq, heq⟩
        rw [← tick_eq_of_point heq]
        simpa using (List.mem_filter.mp hq).2
      · intro hle
        exact ⟨r, List.mem_filter.mpr ⟨hr, by simpa using hle⟩, rfl⟩
    rw [h, hsince] at hkept
    rw [← not_iff_not, ← hkept, Nat.not_lt]
  · intro h
    congr 1
    refine List.filter_congr fun r hr => ?_
    rw [Bool.eq_iff_iff]
    simp only [Bool.not_eq_true', decide_eq_false_iff_not, decide_eq_true_eq]
    rw [h r hr, Nat.not_lt]

/-- **`Cleanup` is right exactly where the second of the cutoff is**: there, what has a fraction
is from before the cutoff, and what has none is not. -/
theorem cleanup_iff (hrows : db.points = rows.map Reading.point) (cutoff : Instant) :
    KeepsSince rows cutoff.ns (db.cleanup cutoff).points ↔
      ∀ r ∈ rows, r.tick.second = cutoff.second →
        (r.tick.ns % 10 ^ 9 ≠ 0 ↔ r.tick.ns < cutoff.ns) := by
  rw [keepsSince_iff hrows]
  refine forall₂_congr fun r _ => ?_
  rw [timestamp_lt_cutoff_iff]
  have hr := Nat.div_add_mod r.tick.ns (10 ^ 9)
  have hc := Nat.div_add_mod cutoff.ns (10 ^ 9)
  have hrm := Nat.mod_lt r.tick.ns (show 0 < 10 ^ 9 by decide)
  have hcm := Nat.mod_lt cutoff.ns (show 0 < 10 ^ 9 by decide)
  unfold Instant.second
  constructor
  · intro h hsec
    rw [← h]
    omega
  · intro h
    rcases Nat.lt_trichotomy (r.tick.ns / 10 ^ 9) (cutoff.ns / 10 ^ 9) with hlt | heq | hgt
    · exact iff_of_true (.inl hlt) (by omega)
    · rw [← h heq]
      omega
    · exact iff_of_false (by omega) (by omega)

theorem cleanup_whole_iff (hrows : db.points = rows.map Reading.point) (cutoff : Instant) :
    KeepsSince rows (cutoff.second * 10 ^ 9) (db.cleanup cutoff).points ↔
      ∀ r ∈ rows, r.tick.second = cutoff.second → r.tick.ns % 10 ^ 9 = 0 := by
  rw [keepsSince_iff hrows]
  refine forall₂_congr fun r _ => ?_
  rw [timestamp_lt_cutoff_iff]
  unfold Instant.second
  omega

/-! ## Both -/

/--
**History is ordered and bounded by real time exactly where no stamp is misread.**

A range query answers the session's readings in the range in order of time iff the stamps are
`Legible` to it; `Cleanup` deletes what is from before its cutoff iff, in the cutoff's second, a
reading has a fraction just when it is from before, and what is from before the printed second
iff no reading of that second has a fraction.
-/
theorem stored_history_iff (hrows : db.points = rows.map Reading.point) (cutoff : Instant) :
    (Answers rows sessionID lower upper
        (db.queryDataPoints sessionID (boundText lower) (boundText upper) 0) ↔
      Legible rows sessionID lower upper) ∧
    (KeepsSince rows cutoff.ns (db.cleanup cutoff).points ↔
      ∀ r ∈ rows, r.tick.second = cutoff.second →
        (r.tick.ns % 10 ^ 9 ≠ 0 ↔ r.tick.ns < cutoff.ns)) ∧
    (KeepsSince rows (cutoff.second * 10 ^ 9) (db.cleanup cutoff).points ↔
      ∀ r ∈ rows, r.tick.second = cutoff.second → r.tick.ns % 10 ^ 9 = 0) :=
  ⟨answers_iff hrows, cleanup_iff hrows cutoff, cleanup_whole_iff hrows cutoff⟩

/-! ### Two samples of one second -/

/-- So many milliseconds after 2024-01-01T10:00:05Z. -/
def after (ms : Fin 1000) : Instant where
  ns := (739251 * 86400 + 36005) * 10 ^ 9 + ms * 10 ^ 6
  inYears := by
    have hend : 739252 * 86400 ≤ yearsEnd := by decide
    omega

/-- A sample of session `s` at an instant. -/
def sampleAt (t : Instant) : Reading := ⟨t, { sessionID := "s", timestamp := t.nano.text }, rfl⟩

/-- A database with the session and its samples. -/
def sampled (ts : List Instant) : DB where
  sessions := [⟨"s", true⟩]
  points := (ts.map sampleAt).map Reading.point
  inserted := []
  referenced := by
    intro p hp
    obtain ⟨r, hr, rfl⟩ := List.mem_map.mp hp
    obtain ⟨t, -, rfl⟩ := List.mem_map.mp hr
    exact ⟨_, List.mem_cons_self, rfl⟩

/-- **The claim without the condition fails**, on both sides: `…05.5Z` is answered in front of
`…05Z`, and a sample from `…05.5Z` is deleted for a cutoff at 05.25. -/
theorem stored_history_misread :
    (¬ ∀ (db : DB) (rows : List Reading), db.points = rows.map Reading.point →
      ∀ sessionID lower upper, Answers rows sessionID lower upper
        (db.queryDataPoints sessionID (boundText lower) (boundText upper) 0)) ∧
    ¬ ∀ (db : DB) (rows : List Reading), db.points = rows.map Reading.point →
      ∀ cutoff : Instant, KeepsSince rows cutoff.ns (db.cleanup cutoff).points ∨
        KeepsSince rows (cutoff.second * 10 ^ 9) (db.cleanup cutoff).points := by
  constructor
  · intro h
    have hlegible := (answers_iff rfl).mp (h (sampled [after 0, after 500])
      ([after 0, after 500].map sampleAt) rfl "s" none none)
    have hext : (sampleAt (after 500)).tick.nano.Extends (sampleAt (after 0)).tick.nano := by
      decide
    refine hlegible.apart (sampleAt (after 500)) ?_ (sampleAt (after 0)) ?_ rfl rfl rfl rfl hext
    · exact List.mem_map_of_mem (by simp)
    · exact List.mem_map_of_mem (by simp)
  · intro h
    have hmem : sampleAt (after 500) ∈ [after 500].map sampleAt := List.mem_map_of_mem (by simp)
    rcases h (sampled [after 500]) ([after 500].map sampleAt) rfl (after 250) with hkeeps | hkeeps
    · have hlater := ((cleanup_iff rfl (after 250)).mp hkeeps _ hmem (by decide)).mp
        (by decide)
      exact absurd hlater (by decide)
    · have hwhole := (cleanup_whole_iff rfl (after 250)).mp hkeeps _ hmem (by decide)
      cases hwhole

/-- Two fractions neither of which continues the other, and a cutoff between them and after. -/
theorem stored_history_iff_apart :
    Answers ([after 125, after 250].map sampleAt) "s" none none
        ((sampled [after 125, after 250]).queryDataPoints "s" "" "" 0) ∧
      ¬ KeepsSince ([after 125, after 250].map sampleAt) (after 125).ns
        ((sampled [after 125, after 250]).cleanup (after 125)).points := by
  have hrows : (sampled [after 125, after 250]).points =
      ([after 125, after 250].map sampleAt).map Reading.point := rfl
  obtain ⟨hanswers, hcleanup, -⟩ := @stored_history_iff _ _ "s" none none hrows (after 125)
  refine ⟨hanswers.mpr ⟨?_, ?_, ?_⟩, fun hkeeps => ?_⟩
  · intro r _ _ _
    exact ⟨by simp, by simp⟩
  · intro r _ _ hno
    exact absurd hno (by simp [Reading.within])
  · intro r hr q hq _ _ _ _
    obtain ⟨t, ht, rfl⟩ := List.mem_map.mp hr
    obtain ⟨u, hu, rfl⟩ := List.mem_map.mp hq
    simp only [List.mem_cons, List.not_mem_nil, or_false] at ht hu
    rcases ht with rfl | rfl <;> rcases hu with rfl | rfl <;> decide
  · -- both have a fraction, and neither is from before
    have hmem : sampleAt (after 250) ∈ [after 125, after 250].map sampleAt :=
      List.mem_map_of_mem (by simp)
    have hlater := (hcleanup.mp hkeeps _ hmem (by decide)).mp (by decide)
    exact absurd hlater (by decide)

end SnmpLens.Storage
