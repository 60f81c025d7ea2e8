import Mathlib.Data.List.Nodup
import SnmpLens.Router.Replay

/-!
# Retention

`TrimEvents` of `pkg/storage/events.go`, next to the watermark it knows nothing of.
The journal keeps the newest events of each category, as many as `eventRetention`
says; `notify_watermark` says how far routing got. Every 256th `InsertEvent` trims,
wherever the watermark stands.

So what is deleted is decided by counting: an event goes when as many events of its
category as are kept are newer. An event that is still to be routed goes exactly when
its category has more events above the watermark than it keeps.
-/

namespace SnmpLens.Retention

open Events Machine Router

/-! ## The journal -/

/-- `eventRetention`: how many events of a category are kept. -/
def eventRetention : List (String × Nat) :=
  [(categoryTrap, 20000), (categoryThreshold, 20000), (categoryReachability, 20000),
    (categorySystem, 5000), (categoryOperation, 5000)]

def maxEventPayloads : Nat := 2000

/-- The journal and its watermark, `event_payloads` by the id of their event, and `eventWrites`. -/
structure Journal where
  db : DB
  payloads : List (String × String)
  eventWrites : Nat

/-- How far the statements of one `trimCategory` got. -/
inductive Reached where
  | nothing
  | payloads
  | events
deriving DecidableEq, Repr

/-- One run of `TrimEvents`: Go ranges over the map in any order, and any statement may fail. -/
structure TrimRun where
  order : List (String × Nat)
  reached : String → Reached
  /-- The payloads beyond the cap were deleted. -/
  capped : Bool
  /-- The orphaned payloads were deleted. -/
  reaped : Bool
  perm : order.Perm eventRetention

/-- The events of a category, oldest first. -/
def ofCategory (db : DB) (category : String) : List Event :=
  db.events.filter fun e => e.category == category

/-- `SELECT seq … ORDER BY seq DESC LIMIT 1 OFFSET keep - 1`. -/
def nthNewest (es : List Event) (keep : Nat) : Option Nat := (es.reverse[keep - 1]?).map Event.seq

/-- `DELETE FROM event_payloads` of some events. -/
def deletePayloads (payloads : List (String × String)) (es : List Event) :
    List (String × String) :=
  payloads.filter fun p => !es.any fun e => e.id == p.1 && 0 < e.payloadSize

def trimCategory (j : Journal) (category : String) (keep : Nat) (reached : Reached) : Journal :=
  match nthNewest (ofCategory j.db category) keep with
  | none => j
  | some cutoff =>
      let old := (ofCategory j.db category).filter fun e => e.seq < cutoff
      match reached with
      | .nothing => j
      | .payloads => { j with payloads := deletePayloads j.payloads old }
      | .events =>
          { j with
            payloads := deletePayloads j.payloads old
            db := j.db.delete (old.map Event.seq) }

def trimPayloads (j : Journal) (capped reaped : Bool) : Journal :=
  let heavy := j.db.events.filter fun e => 0 < e.payloadSize
  let kept :=
    match nthNewest heavy maxEventPayloads with
    | some cutoff =>
        if capped then deletePayloads j.payloads (heavy.filter fun e => e.seq < cutoff)
        else j.payloads
    | none => j.payloads
  { j with payloads :=
      if reaped then kept.filter fun p => j.db.events.any fun e => e.id == p.1 else kept }

def trimEvents (j : Journal) (t : TrimRun) : Journal :=
  trimPayloads (t.order.foldl (fun j ck => trimCategory j ck.1 ck.2 (t.reached ck.1)) j)
    t.capped t.reaped

/-- `noteEventWrite`: trim every 256th time. -/
def noteEventWrite (j : Journal) (t : TrimRun) : Journal :=
  if (j.eventWrites + 1) % 256 == 0 then trimEvents { j with eventWrites := j.eventWrites + 1 } t
  else { j with eventWrites := j.eventWrites + 1 }

/-- `INSERT OR REPLACE INTO event_payloads`. -/
def putPayload (payloads : List (String × String)) (id body : String) : List (String × String) :=
  if body == "" then payloads else (payloads.filter fun p => p.1 != id) ++ [(id, body)]

/-- What happens to the journal. -/
inductive Op where
  /-- `InsertEvent`, and the run of `TrimEvents` it ends with if it does. -/
  | insertEvent (uuid now payload : String) (e : Event) (t : TrimRun)
  | trimEvents (t : TrimRun)
  | enqueueRouted (groups : List RoutedGroup) (watermark : Nat)
  | routedThrough
  /-- `RoutedThrough` where the watermark's row is gone. -/
  | seedWatermark

/-- The journal with the event an operation inserts, before anything is trimmed. -/
def journalled (j : Journal) : Op → Journal
  | .insertEvent uuid now payload e _ =>
      match j.db.insertEvent uuid now payload.utf8ByteSize e with
      | .ok (db, saved) => { j with db, payloads := putPayload j.payloads saved.id payload }
      | .error _ => j
  | _ => j

/-- The run of `TrimEvents` an operation ends with. -/
def trimOf (j : Journal) : Op → Option TrimRun
  | .insertEvent _ _ _ e t =>
      match validate e with
      | .ok () => if (j.eventWrites + 1) % 256 == 0 then some t else none
      | .error _ => none
  | .trimEvents t => some t
  | _ => none

/-- One operation. -/
def apply (j : Journal) : Op → Journal
  | .insertEvent uuid now payload e t =>
      match j.db.insertEvent uuid now payload.utf8ByteSize e with
      | .ok (db, saved) =>
          noteEventWrite { j with db, payloads := putPayload j.payloads saved.id payload } t
      | .error _ => j
  | .trimEvents t => trimEvents j t
  | .enqueueRouted groups watermark => { j with db := j.db.enqueueRouted groups watermark }
  | .routedThrough => { j with db := j.db.clampWatermark }
  | .seedWatermark => { j with db := { j.db with routedThrough := j.db.newest } }

def step (j : Journal) (op : Op) : Option Journal := some (apply j op)

/-! ## What is trimmed -/

/-- How many events of its category are newer than an event. -/
def newer (db : DB) (e : Event) : Nat :=
  ((ofCategory db e.category).filter fun x => e.seq < x.seq).length

/-- What a run of `TrimEvents` deletes. -/
def doomed (order : List (String × Nat)) (reached : String → Reached) (db : DB) (e : Event) : Bool :=
  order.any fun ck =>
    reached ck.1 == .events && e.category == ck.1 && decide (ck.2 ≤ newer db e)

/-- **What the cutoff deletes**: an event with as many newer ones as are kept. -/
theorem lt_nthNewest_iff {es : List Event} (hasc : es.Pairwise fun a b => a.seq < b.seq)
    {keep : Nat} (hpos : 0 < keep) {e : Event} (he : e ∈ es) :
    (∃ cutoff, nthNewest es keep = some cutoff ∧ e.seq < cutoff) ↔
      keep ≤ (es.filter fun x => e.seq < x.seq).length := by
  obtain ⟨front, back, rfl⟩ := List.append_of_mem he
  obtain ⟨hfront, hrest, hcross⟩ := List.pairwise_append.mp hasc
  obtain ⟨hback, _⟩ := List.pairwise_cons.mp hrest
  have hnewer : (front ++ e :: back).filter (fun x => decide (e.seq < x.seq)) = back := by
    have hnone : front.filter (fun x => decide (e.seq < x.seq)) = [] := by
      refine List.filter_eq_nil_iff.mpr fun x hx => ?_
      have := hcross x hx e List.mem_cons_self
      simp
      omega
    have hall : back.filter (fun x => decide (e.seq < x.seq)) = back :=
      List.filter_eq_self.mpr fun x hx => by simpa using hback x hx
    rw [List.filter_append, hnone, List.filter_cons_of_neg (by simp), hall, List.nil_append]
  have hrev : (front ++ e :: back).reverse = back.reverse ++ e :: front.reverse := by simp
  rw [hnewer]
  unfold nthNewest
  rw [hrev]
  by_cases hkeep : keep ≤ back.length
  · refine iff_of_true ?_ hkeep
    rw [List.getElem?_append_left (by rw [List.length_reverse]; omega)]
    have hlt : keep - 1 < back.reverse.length := by
      rw [List.length_reverse]
      omega
    refine ⟨(back.reverse[keep - 1]).seq, by rw [List.getElem?_eq_getElem hlt]; rfl, ?_⟩
    exact hback _ (List.mem_reverse.mp (List.getElem_mem hlt))
  · refine iff_of_false ?_ hkeep
    rintro ⟨cutoff, hcut, hlt⟩
    rw [List.getElem?_append_right (by rw [List.length_reverse]; omega)] at hcut
    obtain ⟨x, hx, rfl⟩ := Option.map_eq_some_iff.mp hcut
    rcases List.mem_cons.mp (List.mem_of_getElem? hx) with rfl | hx
    · omega
    · have := hcross x (List.mem_reverse.mp hx) e List.mem_cons_self
      omega

theorem ascending_ofCategory (db : DB) (c : String) :
    (ofCategory db c).Pairwise fun a b => a.seq < b.seq := db.ascending.filter _

theorem eq_of_seq {db : DB} {a b : Event} (ha : a ∈ db.events) (hb : b ∈ db.events)
    (h : a.seq = b.seq) : a = b := by
  have hnodup : (db.events.map Event.seq).Nodup :=
    List.pairwise_map.mpr (db.ascending.imp Nat.ne_of_lt)
  exact List.inj_on_of_nodup_map hnodup ha hb h

theorem newer_eq {db : DB} {e : Event} {c : String} (h : e.category = c) :
    newer db e = ((ofCategory db c).filter fun x => e.seq < x.seq).length := by
  rw [newer, h]

theorem events_trimCategory (j : Journal) (c : String) {keep : Nat} (hpos : 0 < keep)
    (reached : Reached) :
    (trimCategory j c keep reached).db.events = j.db.events.filter fun e =>
      !(reached == .events && e.category == c && decide (keep ≤ newer j.db e)) := by
  have hmem : ∀ e ∈ j.db.events, e.category = c → e ∈ ofCategory j.db c := by
    intro e he hc
    exact List.mem_filter.mpr ⟨he, by simpa using hc⟩
  have hkept : ∀ r : Reached, r ≠ .events → j.db.events = j.db.events.filter fun e =>
      !(r == .events && e.category == c && decide (keep ≤ newer j.db e)) := by
    intro r hr
    refine (List.filter_eq_self.mpr fun e _ => ?_).symm
    simp [hr]
  unfold trimCategory
  cases hcut : nthNewest (ofCategory j.db c) keep with
  | none =>
      refine (List.filter_eq_self.mpr fun e he => ?_).symm
      by_cases hc : e.category = c
      · have hfew : ¬ keep ≤ newer j.db e := by
          rw [newer_eq hc, ← lt_nthNewest_iff (ascending_ofCategory j.db c) hpos (hmem e he hc)]
          rintro ⟨cutoff, hsome, _⟩
          rw [hcut] at hsome
          cases hsome
        simp [hfew]
      · simp [hc]
  | some cutoff =>
      cases reached with
      | nothing => exact hkept _ (by simp)
      | payloads => exact hkept _ (by simp)
      | events =>
          show j.db.events.filter _ = _
          refine List.filter_congr fun e he => ?_
          have hgone : (((ofCategory j.db c).filter fun e => e.seq < cutoff).map
              Event.seq).contains e.seq = (e.category == c && decide (e.seq < cutoff)) := by
            rw [Bool.eq_iff_iff, List.contains_iff_mem, Bool.and_eq_true, decide_eq_true_eq]
            constructor
            · intro hin
              obtain ⟨x, hx, hseq⟩ := List.mem_map.mp hin
              obtain ⟨hx, hlt⟩ := List.mem_filter.mp hx
              obtain ⟨hx, hc⟩ := List.mem_filter.mp hx
              obtain rfl := eq_of_seq hx he hseq
              exact ⟨hc, by simpa using hlt⟩
            · rintro ⟨hc, hlt⟩
              refine List.mem_map.mpr ⟨e, List.mem_filter.mpr ⟨hmem e he (by simpa using hc), ?_⟩, rfl⟩
              simpa using hlt
          rw [hgone]
          by_cases hc : e.category = c
          · have hiff : e.seq < cutoff ↔ keep ≤ newer j.db e := by
              rw [newer_eq hc,
                ← lt_nthNewest_iff (ascending_ofCategory j.db c) hpos (hmem e he hc), hcut]
              simp
            simp [hc, hiff]
          · have hc' : (e.category == c) = false := by simpa using hc
            simp [hc']

/-- Trimming moves no watermark, and takes no `seq` back. -/
theorem frame_trimCategory (j : Journal) (c : String) (keep : Nat) (reached : Reached) :
    (trimCategory j c keep reached).db.routedThrough = j.db.routedThrough ∧
      (trimCategory j c keep reached).eventWrites = j.eventWrites := by
  unfold trimCategory
  cases nthNewest (ofCategory j.db c) keep with
  | none => exact ⟨rfl, rfl⟩
  | some cutoff => cases reached <;> exact ⟨rfl, rfl⟩

theorem newer_trimCategory (j : Journal) {c : String} {keep : Nat} (hpos : 0 < keep)
    (reached : Reached) {e : Event} (h : e.category ≠ c) :
    newer (trimCategory j c keep reached).db e = newer j.db e := by
  have hsame : ofCategory (trimCategory j c keep reached).db e.category
      = ofCategory j.db e.category := by
    unfold ofCategory
    rw [events_trimCategory j c hpos, List.filter_filter]
    refine List.filter_congr fun x _ => ?_
    by_cases hx : x.category = e.category
    · simp [hx, h]
    · simp [hx]
  rw [newer, hsame, newer]

/-- **What the categories' trims leave**, in whatever order they run. -/
theorem events_trimAll (reached : String → Reached) {order : List (String × Nat)}
    (hnodup : (order.map Prod.fst).Nodup) (hpos : ∀ ck ∈ order, 0 < ck.2) (j : Journal) :
    (order.foldl (fun j ck => trimCategory j ck.1 ck.2 (reached ck.1)) j).db.events
      = j.db.events.filter fun e => !doomed order reached j.db e := by
  induction order generalizing j with
  | nil => exact (List.filter_eq_self.mpr fun _ _ => rfl).symm
  | cons ck order ih =>
      obtain ⟨hnot, hnodup⟩ := List.nodup_cons.mp hnodup
      have hck := hpos ck List.mem_cons_self
      rw [List.foldl_cons, ih hnodup (fun x hx => hpos x (List.mem_cons_of_mem _ hx)),
        events_trimCategory j ck.1 hck, List.filter_filter]
      refine List.filter_congr fun e _ => ?_
      have hrest : doomed order reached (trimCategory j ck.1 ck.2 (reached ck.1)).db e
          = doomed order reached j.db e := by
        unfold doomed
        rw [Bool.eq_iff_iff, List.any_eq_true, List.any_eq_true]
        refine exists_congr fun x => and_congr_right fun hx => ?_
        by_cases hc : e.category = x.1
        · have hne : e.category ≠ ck.1 := by
            intro heq
            exact hnot (List.mem_map.mpr ⟨x, hx, hc.symm.trans heq⟩)
          rw [newer_trimCategory j hck _ hne]
        · simp [hc]
      rw [hrest]
      unfold doomed
      rw [List.any_cons, Bool.not_or, Bool.and_comm]

theorem frame_trimAll (reached : String → Reached) (order : List (String × Nat)) (j : Journal) :
    (order.foldl (fun j ck => trimCategory j ck.1 ck.2 (reached ck.1)) j).db.routedThrough
        = j.db.routedThrough ∧
      (order.foldl (fun j ck => trimCategory j ck.1 ck.2 (reached ck.1)) j).eventWrites
        = j.eventWrites := by
  induction order generalizing j with
  | nil => exact ⟨rfl, rfl⟩
  | cons ck order ih =>
      obtain ⟨hmark, hwrites⟩ := frame_trimCategory j ck.1 ck.2 (reached ck.1)
      rw [List.foldl_cons, (ih _).1, (ih _).2]
      exact ⟨hmark, hwrites⟩

theorem retention_names : (eventRetention.map Prod.fst).Nodup := by decide

theorem retention_pos : ∀ ck ∈ eventRetention, 0 < ck.2 := by decide

/-- **What `TrimEvents` leaves**, and that it moves no watermark. -/
theorem events_trimEvents (j : Journal) (t : TrimRun) :
    (trimEvents j t).db.events = j.db.events.filter (fun e => !doomed t.order t.reached j.db e) ∧
      (trimEvents j t).db.routedThrough = j.db.routedThrough ∧
      (trimEvents j t).eventWrites = j.eventWrites := by
  have hnodup : (t.order.map Prod.fst).Nodup := (t.perm.map Prod.fst).nodup_iff.mpr retention_names
  have hpos : ∀ ck ∈ t.order, 0 < ck.2 := fun ck hck => retention_pos ck (t.perm.subset hck)
  exact ⟨events_trimAll t.reached hnodup hpos j, frame_trimAll t.reached t.order j⟩

theorem frame_noteEventWrite (j : Journal) (t : TrimRun) :
    (noteEventWrite j t).db.routedThrough = j.db.routedThrough ∧
      (noteEventWrite j t).eventWrites = j.eventWrites + 1 := by
  unfold noteEventWrite
  split
  · exact ⟨(events_trimEvents _ t).2.1, (events_trimEvents _ t).2.2⟩
  · exact ⟨rfl, rfl⟩

/-! ## What is still to be routed -/

/-- The events above the watermark, of one category. -/
def unrouted (db : DB) (category : String) : List Event :=
  (ofCategory db category).filter fun e => db.routedThrough < e.seq

/-- **An event above the watermark is deleted exactly when its category has more of them than
it keeps.** -/
theorem exists_unrouted_iff {db : DB} {c : String} {keep : Nat} :
    (∃ e ∈ unrouted db c, keep ≤ newer db e) ↔ keep < (unrouted db c).length := by
  have hasc : (unrouted db c).Pairwise fun a b => a.seq < b.seq := (ascending_ofCategory db c).filter _
  -- above an unrouted event, all events are unrouted
  have hnewer : ∀ e ∈ unrouted db c,
      newer db e = ((unrouted db c).filter fun x => e.seq < x.seq).length := by
    intro e he
    obtain ⟨he, hmark⟩ := List.mem_filter.mp he
    have hcat : e.category = c := by simpa using (List.mem_filter.mp he).2
    have hmark : db.routedThrough < e.seq := by simpa using hmark
    rw [newer_eq hcat, unrouted, List.filter_filter]
    refine congrArg List.length (List.filter_congr fun x _ => ?_)
    by_cases hlt : e.seq < x.seq
    · have : db.routedThrough < x.seq := Nat.lt_trans hmark hlt
      simp [hlt, this]
    · simp [hlt]
  constructor
  · rintro ⟨e, he, hle⟩
    rw [hnewer e he] at hle
    refine Nat.lt_of_le_of_lt hle (List.length_filter_lt_length_iff_exists.mpr ⟨e, he, ?_⟩)
    simp
  · intro hlt
    obtain ⟨e, rest, hsplit⟩ : ∃ e rest, unrouted db c = e :: rest :=
      List.exists_cons_of_length_pos (Nat.lt_of_le_of_lt (Nat.zero_le _) hlt)
    have he : e ∈ unrouted db c := by
      rw [hsplit]
      exact List.mem_cons_self
    refine ⟨e, he, ?_⟩
    rw [hnewer e he, hsplit, List.filter_cons_of_neg (by simp)]
    rw [hsplit] at hasc hlt
    have hall : rest.filter (fun x => decide (e.seq < x.seq)) = rest :=
      List.filter_eq_self.mpr fun x hx => by simpa using (List.pairwise_cons.mp hasc).1 x hx
    rw [hall]
    exact Nat.lt_succ_iff.mp (by simpa using hlt)

/-- Every event that is still to be routed survives an operation. -/
def KeepsUnrouted (j : Journal) (op : Op) : Prop :=
  ∀ e ∈ (journalled j op).db.events, j.db.routedThrough < e.seq → e ∈ (apply j op).db.events

/-- No category that an operation trims has more events above the watermark than it keeps. -/
def Room (j : Journal) (op : Op) : Prop :=
  ∀ t, trimOf j op = some t → ∀ ck ∈ eventRetention, t.reached ck.1 = .events →
    (unrouted (journalled j op).db ck.1).length ≤ ck.2

theorem apply_refused (j : Journal) {uuid now payload : String} {e : Event} {t : TrimRun}
    {err : Invalid} (h : validate e = .error err) :
    journalled j (.insertEvent uuid now payload e t) = j ∧
      trimOf j (.insertEvent uuid now payload e t) = none ∧
      apply j (.insertEvent uuid now payload e t) = j := by
  have hins : j.db.insertEvent uuid now payload.utf8ByteSize e = .error err := by
    unfold DB.insertEvent
    rw [h]
    rfl
  simp only [journalled, trimOf, apply, hins, h, and_self]

theorem apply_accepted (j : Journal) {uuid now payload : String} {e : Event} {t : TrimRun}
    (h : validate e = .ok ()) :
    ∃ payloads : List (String × String),
      let j' := { j with db := j.db.append (withDefaults uuid now payload.utf8ByteSize e), payloads }
      journalled j (.insertEvent uuid now payload e t) = j' ∧
        trimOf j (.insertEvent uuid now payload e t)
          = (if (j.eventWrites + 1) % 256 == 0 then some t else none) ∧
        apply j (.insertEvent uuid now payload e t) = noteEventWrite j' t := by
  have hins : ∃ saved, j.db.insertEvent uuid now payload.utf8ByteSize e
      = .ok (j.db.append (withDefaults uuid now payload.utf8ByteSize e), saved) := by
    unfold DB.insertEvent
    rw [h]
    exact ⟨_, rfl⟩
  obtain ⟨saved, hins⟩ := hins
  refine ⟨putPayload j.payloads saved.id payload, ?_⟩
  simp only [journalled, trimOf, apply, hins, h, and_self]

theorem events_apply (j : Journal) (op : Op) :
    (journalled j op).db.routedThrough = j.db.routedThrough ∧
      (apply j op).db.events = (journalled j op).db.events.filter fun e =>
        !(trimOf j op).any fun t => doomed t.order t.reached (journalled j op).db e := by
  have hself : ∀ es : List Event, es = es.filter fun _ => !false :=
    fun es => (List.filter_eq_self.mpr fun _ _ => rfl).symm
  cases op with
  | insertEvent uuid now payload e t =>
      cases hv : validate e with
      | error err =>
          obtain ⟨hjournalled, htrim, happly⟩ := @apply_refused j uuid now payload _ t _ hv
          rw [hjournalled, htrim, happly]
          exact ⟨rfl, hself _⟩
      | ok _ =>
          obtain ⟨payloads, hjournalled, htrim, happly⟩ := @apply_accepted j uuid now payload _ t hv
          rw [hjournalled, htrim, happly]
          refine ⟨rfl, ?_⟩
          unfold noteEventWrite
          split
          · exact (events_trimEvents _ t).1
          · exact hself _
  | trimEvents t => exact ⟨rfl, (events_trimEvents j t).1⟩
  | enqueueRouted groups watermark => exact ⟨rfl, hself _⟩
  | routedThrough =>
      refine ⟨rfl, ?_⟩
      show j.db.clampWatermark.events = _
      unfold DB.clampWatermark
      split
      · exact hself _
      · exact hself _
  | seedWatermark => exact ⟨rfl, hself _⟩

/-- **One operation**: nothing unrouted is deleted exactly when there is room for it. -/
theorem keepsUnrouted_iff (j : Journal) (op : Op) : KeepsUnrouted j op ↔ Room j op := by
  obtain ⟨hmark, hevents⟩ := events_apply j op
  unfold KeepsUnrouted Room
  rw [hevents]
  cases ht : trimOf j op with
  | none =>
      refine iff_of_true (fun e he _ => List.mem_filter.mpr ⟨he, rfl⟩) ?_
      intro t ht'
      cases ht'
  | some t =>
      have hunrouted : ∀ e c, e ∈ unrouted (journalled j op).db c ↔
          e ∈ (journalled j op).db.events ∧ e.category = c ∧ j.db.routedThrough < e.seq := by
        intro e c
        rw [unrouted, ofCategory, List.mem_filter, List.mem_filter, hmark]
        simp [and_assoc]
      simp only [Option.any_some]
      constructor
      · intro hkeeps t' ht' ck hck hreached
        obtain rfl := Option.some.inj ht'
        by_contra hover
        obtain ⟨e, he, hdoom⟩ := exists_unrouted_iff.mpr (Nat.lt_of_not_le hover)
        obtain ⟨hin, hcat, hseq⟩ := (hunrouted e ck.1).mp he
        have hkept := (List.mem_filter.mp (hkeeps e hin hseq)).2
        have hdoomed : doomed t.order t.reached (journalled j op).db e = true :=
          List.any_eq_true.mpr ⟨ck, t.perm.symm.subset hck, by simp [hreached, hcat, hdoom]⟩
        rw [hdoomed] at hkept
        cases hkept
      · intro hroom e hin hseq
        refine List.mem_filter.mpr ⟨hin, ?_⟩
        rw [Bool.not_eq_true', ← Bool.not_eq_true]
        intro hdoomed
        obtain ⟨ck, hck, hyes⟩ := List.any_eq_true.mp hdoomed
        rw [Bool.and_eq_true, Bool.and_eq_true, beq_iff_eq, beq_iff_eq, decide_eq_true_eq] at hyes
        have hle := hroom t rfl ck (t.perm.subset hck) hyes.1.1
        have hlt := exists_unrouted_iff.mp
          ⟨e, (hunrouted e ck.1).mpr ⟨hin, hyes.1.2, hseq⟩, hyes.2⟩
        omega

/-! ## Runs -/

/-- Every event that was ever in the journal of a run, as it was journalled. -/
def everJournalled (j : Journal) : List Op → List Event
  | [] => j.db.events
  | op :: ops => (journalled j op).db.events ++ everJournalled (apply j op) ops

/-- An event is in the journal, or routing and the journal have gone past it. -/
def Accounted (j : Journal) (e : Event) : Prop :=
  e ∈ j.db.events ∨ (e.seq ≤ j.db.routedThrough ∧ e.seq ≤ j.db.newest)

theorem newest_mono {db db' : DB} (h : ∀ e ∈ db.events, e ∈ db'.events) :
    db.newest ≤ db'.newest := by
  cases hlast : db.events.getLast? with
  | none => simp [DB.newest, hlast]
  | some e =>
      have hnewest : db.newest = e.seq := by simp [DB.newest, hlast]
      rw [hnewest]
      exact newest_spec (h e (List.mem_of_getLast? hlast))

/-- Nothing is newer than the newest event, so no trim deletes it. -/
theorem newest_apply (j : Journal) (op : Op) :
    (journalled j op).db.newest ≤ (apply j op).db.newest := by
  cases hlast : (journalled j op).db.events.getLast? with
  | none => simp [DB.newest, hlast]
  | some e =>
      have hnewest : (journalled j op).db.newest = e.seq := by simp [DB.newest, hlast]
      have hin := List.mem_of_getLast? hlast
      have hnone : newer (journalled j op).db e = 0 := by
        rw [newer, List.length_eq_zero_iff, List.filter_eq_nil_iff]
        intro x hx
        have := newest_spec (List.mem_filter.mp hx).1
        simp
        omega
      rw [hnewest]
      refine newest_spec ?_
      rw [(events_apply j op).2]
      refine List.mem_filter.mpr ⟨hin, ?_⟩
      rw [Bool.not_eq_true', ← Bool.not_eq_true]
      intro hdoomed
      obtain ⟨t, _, hdoomed⟩ := (Option.any_eq_true _ _).mp hdoomed
      obtain ⟨ck, hck, hyes⟩ := List.any_eq_true.mp hdoomed
      have hpos := retention_pos ck (t.perm.subset hck)
      rw [Bool.and_eq_true, decide_eq_true_eq, hnone] at hyes
      omega

variable {j : Journal}

theorem mem_journalled {op : Op} {e : Event} (h : e ∈ j.db.events) :
    e ∈ (journalled j op).db.events := by
  cases op with
  | insertEvent uuid now payload new t =>
      cases hv : validate new with
      | error err => rw [(apply_refused j hv).1]; exact h
      | ok _ =>
          obtain ⟨payloads, hjournalled, _⟩ := @apply_accepted j uuid now payload _ t hv
          rw [hjournalled]
          exact List.mem_append_left _ h
  | trimEvents t => exact h
  | enqueueRouted groups watermark => exact h
  | routedThrough => exact h
  | seedWatermark => exact h

theorem routedThrough_apply (j : Journal) (op : Op) :
    j.db.routedThrough ≤ (apply j op).db.routedThrough ∨
      (apply j op).db.routedThrough = (apply j op).db.newest := by
  cases op with
  | insertEvent uuid now payload e t =>
      left
      cases hv : validate e with
      | error err => exact Nat.le_of_eq (by rw [(apply_refused j hv).2.2])
      | ok _ =>
          obtain ⟨payloads, _, _, happly⟩ := @apply_accepted j uuid now payload _ t hv
          rw [happly, (frame_noteEventWrite _ t).1]
          exact Nat.le_refl _
  | trimEvents t => exact .inl (Nat.le_of_eq (events_trimEvents j t).2.1.symm)
  | enqueueRouted groups watermark =>
      left
      show _ ≤ if j.db.routedThrough < watermark then watermark else j.db.routedThrough
      split <;> omega
  | routedThrough =>
      show j.db.routedThrough ≤ j.db.clampWatermark.routedThrough ∨
        j.db.clampWatermark.routedThrough = j.db.clampWatermark.newest
      unfold DB.clampWatermark
      split
      · exact .inr rfl
      · exact .inl (Nat.le_refl _)
  | seedWatermark => exact .inr rfl

theorem accounted_apply {op : Op} (hroom : Room j op) {e : Event}
    (h : Accounted j e ∨ e ∈ (journalled j op).db.events) : Accounted (apply j op) e := by
  have hpast : e.seq ≤ j.db.routedThrough → e.seq ≤ (journalled j op).db.newest →
      Accounted (apply j op) e := by
    intro hmark hnewest
    have hnewest' := Nat.le_trans hnewest (newest_apply j op)
    refine .inr ⟨?_, hnewest'⟩
    rcases routedThrough_apply j op with hle | heq
    · omega
    · omega
  have hin : e ∈ (journalled j op).db.events → Accounted (apply j op) e := by
    intro hin
    by_cases hmark : j.db.routedThrough < e.seq
    · exact .inl ((keepsUnrouted_iff j op).mpr hroom e hin hmark)
    · exact hpast (Nat.le_of_not_lt hmark) (newest_spec hin)
  rcases h with (hold | ⟨hmark, hnewest⟩) | hnew
  · exact hin (mem_journalled hold)
  · exact hpast hmark (Nat.le_trans hnewest (newest_mono fun x hx => mem_journalled hx))
  · exact hin hnew

/--
**Retention deletes no event that is still to be routed, as long as there is room.**

Of any sequence of operations, every one keeps the events above the watermark exactly
when every one that trims finds no more of them in a category than it keeps; and of
such a sequence every event that was ever journalled and is above the watermark is
still in the journal.
-/
theorem unrouted_retained (j j' : Journal) (ops : List Op) :
    (Run step KeepsUnrouted j ops j' ↔ Run step Room j ops j') ∧
      (Run step Room j ops j' → ∀ e ∈ everJournalled j ops,
        j'.db.routedThrough < e.seq → e ∈ j'.db.events) := by
  refine ⟨⟨fun h => h.mono fun s a => (keepsUnrouted_iff s a).mp,
    fun h => h.mono fun s a => (keepsUnrouted_iff s a).mpr⟩, ?_⟩
  intro h e he hmark
  have haccounted : Accounted j' e := by
    suffices hall : ∀ e, Accounted j e ∨ e ∈ everJournalled j ops → Accounted j' e from
      hall e (.inr he)
    clear he hmark
    induction h with
    | refl s => exact fun e he => he.elim id .inl
    | @head s t u op ops hroom hs _ ih =>
        obtain rfl : apply s op = t := Option.some.inj hs
        intro e he
        refine ih e ?_
        rcases he with hold | he
        · exact .inl (accounted_apply hroom (.inl hold))
        · rcases List.mem_append.mp he with hnow | hlater
          · exact .inl (accounted_apply hroom (.inr hnow))
          · exact .inr hlater
  exact haccounted.resolve_right fun hpast => by omega

/-! ## A burst nothing routes -/

/-- The journal of a new database. -/
def Journal.empty : Journal := { db := DB.empty, payloads := [], eventWrites := 0 }

/-- An event of the program about itself. -/
def notice : Event where
  category := categorySystem
  kind := kindSystemSinkDeadLetter
  titleKey := "events.kind.system.sink_dead_letter"

/-- A trim all of whose statements go through. -/
def wholeTrim : TrimRun where
  order := eventRetention
  reached := fun _ => .events
  capped := true
  reaped := true
  perm := .refl _

/-- The `n`th event of a burst. -/
def burstOp (n : Nat) : Op :=
  .insertEvent (toString n) "2025-06-01T00:00:00Z" "" notice wholeTrim

def burst (n : Nat) : List Op := (List.range n).map burstOp

/-- What a burst leaves in the journal while nothing was deleted. -/
structure Filled (n : Nat) (j : Journal) : Prop where
  writes : j.eventWrites = n
  mark : j.db.routedThrough = 0
  events : j.db.events.length = n
  system : ∀ e ∈ j.db.events, e.category = categorySystem

theorem journalled_burstOp {n : Nat} (h : Filled n j) :
    (journalled j (burstOp n)).db.events.length = n + 1 ∧
      (∀ e ∈ (journalled j (burstOp n)).db.events, e.category = categorySystem) ∧
      trimOf j (burstOp n) = (if (n + 1) % 256 == 0 then some wholeTrim else none) ∧
      (apply j (burstOp n)).eventWrites = n + 1 ∧ (apply j (burstOp n)).db.routedThrough = 0 := by
  have hv : validate notice = .ok () := rfl
  obtain ⟨payloads, hjournalled, htrim, happly⟩ := @apply_accepted j (toString n)
    "2025-06-01T00:00:00Z" "" _ wholeTrim hv
  unfold burstOp
  rw [hjournalled, htrim, happly]
  refine ⟨?_, ?_, by rw [h.writes], ?_, ?_⟩
  · show (j.db.events ++ [_]).length = n + 1
    rw [List.length_append, h.events, List.length_singleton]
  · intro e he
    rcases List.mem_append.mp he with he | he
    · exact h.system e he
    · rw [List.mem_singleton.mp he]
      rfl
  · rw [(frame_noteEventWrite _ _).2]
    exact congrArg (· + 1) h.writes
  · rw [(frame_noteEventWrite _ _).1]
    exact h.mark

theorem unrouted_burst {n : Nat} (h : Filled n j) (c : String) :
    (unrouted (journalled j (burstOp n)).db c).length
      = if c = categorySystem then n + 1 else 0 := by
  obtain ⟨hlen, hsystem, _⟩ := journalled_burstOp h
  have hmark : (journalled j (burstOp n)).db.routedThrough = 0 :=
    (events_apply j (burstOp n)).1.trans h.mark
  unfold unrouted ofCategory
  rw [List.filter_filter, hmark]
  by_cases hc : c = categorySystem
  · rw [if_pos hc, ← hlen]
    refine congrArg List.length (List.filter_eq_self.mpr fun e he => ?_)
    have hpos := (journalled j (burstOp n)).db.positive e he
    simp [hsystem e he, hc, hpos]
  · rw [if_neg hc, List.length_eq_zero_iff, List.filter_eq_nil_iff]
    intro e he
    have hne : ¬ categorySystem = c := fun heq => hc heq.symm
    simp [hsystem e he, hne]

theorem filled_step {n : Nat} (h : Filled n j) (hroom : (n + 1) % 256 = 0 → n + 1 ≤ 5000) :
    Filled (n + 1) (apply j (burstOp n)) := by
  obtain ⟨hlen, hsystem, htrim, hwrites, hmark⟩ := journalled_burstOp h
  have hall : Room j (burstOp n) := by
    intro t ht ck hck _
    rw [htrim] at ht
    split at ht
    · rename_i hw
      have hle := hroom (by simpa using hw)
      have hcap : ∀ ck ∈ eventRetention, 5000 ≤ ck.2 := by decide
      have := hcap ck hck
      rw [unrouted_burst h]
      split <;> omega
    · cases ht
  have hkept : (apply j (burstOp n)).db.events = (journalled j (burstOp n)).db.events := by
    have hkeeps := (keepsUnrouted_iff j (burstOp n)).mpr hall
    unfold KeepsUnrouted at hkeeps
    rw [(events_apply j (burstOp n)).2] at hkeeps ⊢
    refine List.filter_eq_self.mpr fun e he => (List.mem_filter.mp (hkeeps e he ?_)).2
    rw [h.mark]
    exact (journalled j (burstOp n)).db.positive e he
  exact ⟨hwrites, hmark, by rw [hkept, hlen], by rw [hkept]; exact hsystem⟩

theorem filled_burst {n : Nat} (hn : n < 5120) :
    ∃ j, Run step (fun _ _ => True) Journal.empty (burst n) j ∧ Filled n j := by
  induction n with
  | zero => exact ⟨Journal.empty, .refl _, ⟨rfl, rfl, rfl, by simp [Journal.empty, DB.empty]⟩⟩
  | succ n ih =>
      obtain ⟨j, hrun, hfilled⟩ := ih (by omega)
      refine ⟨apply j (burstOp n), ?_, filled_step hfilled (by omega)⟩
      unfold burst
      rw [List.range_succ, List.map_append]
      exact hrun.trans (.single trivial rfl)

/-- **The 5120th system event of a burst** deletes events that were not routed. -/
theorem burst_loses :
    ∃ j e, Run step (fun _ _ => True) Journal.empty (burst 5119) j ∧
      e ∈ (journalled j (burstOp 5119)).db.events ∧ j.db.routedThrough < e.seq ∧
      e ∉ (apply j (burstOp 5119)).db.events := by
  obtain ⟨j, hrun, hfilled⟩ := filled_burst (n := 5119) (by omega)
  have hover : ¬ Room j (burstOp 5119) := by
    intro hroom
    have htrim := (journalled_burstOp hfilled).2.2.1
    have hle := hroom wholeTrim htrim (categorySystem, 5000) (by decide) rfl
    rw [unrouted_burst hfilled] at hle
    simp at hle
  have hloses := mt (keepsUnrouted_iff j (burstOp 5119)).mp hover
  unfold KeepsUnrouted at hloses
  push Not at hloses
  obtain ⟨e, he, hmark, hgone⟩ := hloses
  exact ⟨j, e, hrun, he, hmark, hgone⟩

end SnmpLens.Retention
