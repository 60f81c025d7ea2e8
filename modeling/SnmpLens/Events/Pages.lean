import SnmpLens.Events.Query

/-!
# Reading the journal to its end

`QueryEvents` page after page, each asked for below the `NextCursor` of the one before, while
the journal is written to in between. An event that comes meanwhile has a `seq` above every
cursor, so no page is moved by it; what can take a row from a later page is retention, which
`InsertEvent` runs every 256th time. So a reading is in order and without repetition whatever
happens, and complete but for what was deleted before its last page.
-/

namespace SnmpLens.Pages

open Events Router Cursor EventList

/-- The pages from a cursor on: what they hold together, and the journal the last one was read
from. `meanwhile` is what happens to the journal after each page. -/
def follow (f : Filter) (meanwhile : Nat → List Retention.Op) :
    Nat → Nat → Retention.Journal → Nat → Option (List Event × Retention.Journal)
  | 0, _, _, _ => none
  | fuel + 1, k, j, cursor =>
      let page := queryEvents j.db.events { f with beforeSeq := cursor }
      if page.nextCursor = 0 then some (page.items, j)
      else
        (follow f meanwhile fuel (k + 1) ((meanwhile k).foldl Retention.apply j)
          page.nextCursor).map fun rest => (page.items ++ rest.1, rest.2)

/-! ## The journal meanwhile -/

/-- What a journal has of the events of an earlier one was there then. -/
structure Later (j j' : Retention.Journal) : Prop where
  nextSeq : j.db.nextSeq ≤ j'.db.nextSeq
  events : ∀ e ∈ j'.db.events, e.seq < j.db.nextSeq → e ∈ j.db.events

theorem Later.refl (j : Retention.Journal) : Later j j := ⟨Nat.le_refl _, fun _ he _ => he⟩

theorem Later.trans {j j' j'' : Retention.Journal} (h : Later j j') (h' : Later j' j'') :
    Later j j'' where
  nextSeq := Nat.le_trans h.nextSeq h'.nextSeq
  events := fun e he hlt =>
    h.events e (h'.events e he (Nat.lt_of_lt_of_le hlt h.nextSeq)) hlt

theorem nextSeq_trimCategory (j : Retention.Journal) (c : String) (keep : Nat)
    (reached : Retention.Reached) :
    (Retention.trimCategory j c keep reached).db.nextSeq = j.db.nextSeq := by
  unfold Retention.trimCategory
  cases Retention.nthNewest (Retention.ofCategory j.db c) keep with
  | none => rfl
  | some cutoff => cases reached <;> rfl

theorem nextSeq_trimEvents (j : Retention.Journal) (t : Retention.TrimRun) :
    (Retention.trimEvents j t).db.nextSeq = j.db.nextSeq := by
  have hall : ∀ (order : List (String × Nat)) (j : Retention.Journal),
      (order.foldl (fun j ck => Retention.trimCategory j ck.1 ck.2 (t.reached ck.1)) j).db.nextSeq
        = j.db.nextSeq := by
    intro order
    induction order with
    | nil => exact fun _ => rfl
    | cons ck order ih =>
        intro j
        rw [List.foldl_cons, ih, nextSeq_trimCategory]
  exact hall t.order j

theorem nextSeq_apply (j : Retention.Journal) (op : Retention.Op) :
    j.db.nextSeq ≤ (Retention.apply j op).db.nextSeq := by
  cases op with
  | insertEvent uuid now payload e t =>
      cases hv : validate e with
      | error err => rw [(Retention.apply_refused j hv).2.2]
      | ok _ =>
          obtain ⟨payloads, _, _, happly⟩ := @Retention.apply_accepted j uuid now payload _ t hv
          rw [happly]
          unfold Retention.noteEventWrite
          split
          · rw [nextSeq_trimEvents]
            exact Nat.le_succ _
          · exact Nat.le_succ _
  | trimEvents t => exact Nat.le_of_eq (nextSeq_trimEvents j t).symm
  | enqueueRouted groups watermark => exact Nat.le_refl _
  | routedThrough =>
      show _ ≤ j.db.clampWatermark.nextSeq
      unfold DB.clampWatermark
      split <;> exact Nat.le_refl _
  | seedWatermark => exact Nat.le_refl _

variable {j : Retention.Journal}

theorem mem_journalled_iff {op : Retention.Op} {e : Event}
    (h : e ∈ (Retention.journalled j op).db.events) : e ∈ j.db.events ∨ e.seq = j.db.nextSeq := by
  cases op with
  | insertEvent uuid now payload new t =>
      cases hv : validate new with
      | error err =>
          rw [(Retention.apply_refused j hv).1] at h
          exact .inl h
      | ok _ =>
          obtain ⟨payloads, hjournalled, _⟩ :=
            @Retention.apply_accepted j uuid now payload _ t hv
          rw [hjournalled] at h
          rcases List.mem_append.mp h with h | h
          · exact .inl h
          · rw [List.mem_singleton.mp h]
            exact .inr rfl
  | trimEvents t => exact .inl h
  | enqueueRouted groups watermark => exact .inl h
  | routedThrough => exact .inl h
  | seedWatermark => exact .inl h

theorem later_apply (j : Retention.Journal) (op : Retention.Op) :
    Later j (Retention.apply j op) where
  nextSeq := nextSeq_apply j op
  events := by
    intro e he hlt
    rw [(Retention.events_apply j op).2] at he
    rcases mem_journalled_iff (List.mem_filter.mp he).1 with hold | hnew
    · exact hold
    · omega

theorem later_foldl (ops : List Retention.Op) (j : Retention.Journal) :
    Later j (ops.foldl Retention.apply j) := by
  induction ops generalizing j with
  | nil => exact .refl j
  | cons op ops ih => exact (later_apply j op).trans (ih _)

/-! ## One page -/

section

variable {f : Filter} {j : Retention.Journal} {cursor : Nat}

/-- A page of the journal. -/
def pageAt (f : Filter) (j : Retention.Journal) (cursor : Nat) : Page :=
  queryEvents j.db.events { f with beforeSeq := cursor }

theorem items_pageAt (f : Filter) (j : Retention.Journal) (cursor : Nat) :
    (pageAt f j cursor).items =
      (between f (pageAt f j cursor).nextCursor (Below cursor j.db.nextSeq) j.db.events).map
        scanEvent :=
  queryEvents_items j.db.ascending fun e he => Nat.le_of_lt (j.db.below e he)

/-- What a page holds: the rows its filter takes, below its cursor and down to the next one. -/
theorem mem_pageAt {x : Event} : x ∈ (pageAt f j cursor).items ↔
    ∃ e ∈ j.db.events, scanEvent e = x ∧ buildEventWhere f e = true ∧
      (cursor ≠ 0 → e.seq < cursor) ∧ (pageAt f j cursor).nextCursor ≤ e.seq := by
  rw [items_pageAt, List.mem_map]
  constructor
  · rintro ⟨e, he, rfl⟩
    obtain ⟨⟨hmem, hmatch⟩, hlo, hhi⟩ := mem_between.mp he
    refine ⟨e, hmem, rfl, hmatch, fun hc => ?_, hlo⟩
    rw [Below, if_neg hc] at hhi
    omega
  · rintro ⟨e, hmem, rfl, hmatch, hlt, hlo⟩
    refine ⟨e, mem_between.mpr ⟨⟨hmem, hmatch⟩, hlo, ?_⟩, rfl⟩
    unfold Below
    split
    · exact Nat.le_of_lt (j.db.below e hmem)
    · rename_i hc
      have := hlt hc
      omega

theorem descends_pageAt (f : Filter) (j : Retention.Journal) (cursor : Nat) :
    Descends Event.seq (pageAt f j cursor).items := by
  rw [items_pageAt]
  exact List.pairwise_map.mpr (descends_between j.db.ascending f _ _)

theorem nextCursor_mem (h : (pageAt f j cursor).nextCursor ≠ 0) :
    ∃ x ∈ (pageAt f j cursor).items, x.seq = (pageAt f j cursor).nextCursor := by
  unfold pageAt queryEvents at h ⊢
  dsimp only at h ⊢
  split at h
  · rename_i hfull
    rw [if_pos hfull]
    cases hlast : (((taken { f with beforeSeq := cursor } j.db.events).filter fun e =>
        cursor == 0 || decide (e.seq < cursor)).take
          ({ f with beforeSeq := cursor } : Filter).pageLimit |>.map scanEvent).getLast? with
    | none => rw [hlast] at h; exact absurd rfl h
    | some x => exact ⟨x, List.mem_of_getLast? hlast, rfl⟩
  · exact absurd rfl h

/-- **The cursor goes down.** -/
theorem nextCursor_lt (h : (pageAt f j cursor).nextCursor ≠ 0) :
    (pageAt f j cursor).nextCursor < j.db.nextSeq ∧
      (cursor ≠ 0 → (pageAt f j cursor).nextCursor < cursor) := by
  obtain ⟨x, hx, hseq⟩ := nextCursor_mem h
  obtain ⟨e, he, hex, -, hlt, -⟩ := mem_pageAt.mp hx
  have hsame : x.seq = e.seq := by rw [← hex]; rfl
  rw [← hseq, hsame]
  exact ⟨j.db.below e he, hlt⟩

end

/-! ## The whole reading -/

/-- The rest of a reading from a cursor: in order, of rows the journal has now, and complete but
for what is gone by the end. -/
structure Reads (f : Filter) (j : Retention.Journal) (cursor : Nat) (items : List Event)
    (last : Retention.Journal) : Prop where
  later : Later j last
  descends : Descends Event.seq items
  rows : ∀ x ∈ items, ∃ e ∈ j.db.events, scanEvent e = x ∧ buildEventWhere f e = true ∧
    (cursor ≠ 0 → e.seq < cursor)
  complete : ∀ e ∈ j.db.events, buildEventWhere f e = true → (cursor ≠ 0 → e.seq < cursor) →
    e ∈ last.db.events → scanEvent e ∈ items

theorem reads_last {f : Filter} {cursor : Nat} (h : (pageAt f j cursor).nextCursor = 0) :
    Reads f j cursor (pageAt f j cursor).items j where
  later := .refl j
  descends := descends_pageAt f j cursor
  rows := by
    intro x hx
    obtain ⟨e, he, hex, hmatch, hlt, -⟩ := mem_pageAt.mp hx
    exact ⟨e, he, hex, hmatch, hlt⟩
  complete := by
    intro e he hmatch hlt _
    refine mem_pageAt.mpr ⟨e, he, rfl, hmatch, hlt, ?_⟩
    rw [h]
    exact Nat.zero_le _

/-- One more page in front: what came meanwhile is above the cursor the rest is read from. -/
theorem reads_more {f : Filter} {j j' last : Retention.Journal} {cursor : Nat}
    {items : List Event} (hnext : (pageAt f j cursor).nextCursor ≠ 0) (hlater : Later j j')
    (h : Reads f j' (pageAt f j cursor).nextCursor items last) :
    Reads f j cursor ((pageAt f j cursor).items ++ items) last := by
  obtain ⟨hseq, hdown⟩ := nextCursor_lt hnext
  have hrest : ∀ x ∈ items, ∃ e ∈ j.db.events, scanEvent e = x ∧ buildEventWhere f e = true ∧
      e.seq < (pageAt f j cursor).nextCursor := by
    intro x hx
    obtain ⟨e, he, hex, hmatch, hlt⟩ := h.rows x hx
    have hlt := hlt hnext
    exact ⟨e, hlater.events e he (Nat.lt_trans hlt hseq), hex, hmatch, hlt⟩
  refine ⟨hlater.trans h.later, ?_, ?_, ?_⟩
  · refine List.pairwise_append.mpr ⟨descends_pageAt f j cursor, h.descends, ?_⟩
    intro x hx y hy
    obtain ⟨e, -, rfl, -, -, hge⟩ := mem_pageAt.mp hx
    obtain ⟨d, -, rfl, -, hlt⟩ := hrest y hy
    exact Nat.lt_of_lt_of_le hlt hge
  · intro x hx
    rcases List.mem_append.mp hx with hx | hx
    · obtain ⟨e, he, hex, hmatch, hlt, -⟩ := mem_pageAt.mp hx
      exact ⟨e, he, hex, hmatch, hlt⟩
    · obtain ⟨e, he, hex, hmatch, hlt⟩ := hrest x hx
      exact ⟨e, he, hex, hmatch, fun hc => Nat.lt_trans hlt (hdown hc)⟩
  · intro e he hmatch hlt hlast
    rcases Nat.lt_or_ge e.seq (pageAt f j cursor).nextCursor with hbelow | habove
    · -- it is still there when the rest is read, since it is there at the end
      have hstill : e ∈ j'.db.events := by
        refine h.later.events e hlast ?_
        have := hlater.nextSeq
        omega
      exact List.mem_append_right _ (h.complete e hstill hmatch (fun _ => hbelow) hlast)
    · exact List.mem_append_left _ (mem_pageAt.mpr ⟨e, he, rfl, hmatch, hlt, habove⟩)

/-- The cursor goes down, so that many pages are enough. -/
theorem follow_reads (f : Filter) (meanwhile : Nat → List Retention.Op) {n k cursor : Nat}
    (hcursor : cursor ≠ 0) (hfuel : cursor ≤ n) :
    ∃ items last, follow f meanwhile n k j cursor = some (items, last) ∧
      Reads f j cursor items last := by
  induction n generalizing k cursor j with
  | zero => omega
  | succ n ih =>
      by_cases hnext : (pageAt f j cursor).nextCursor = 0
      · refine ⟨(pageAt f j cursor).items, j, ?_, reads_last hnext⟩
        exact if_pos hnext
      · have hdown := (nextCursor_lt hnext).2 hcursor
        obtain ⟨items, last, hrun, hreads⟩ := ih (k := k + 1)
          (j := (meanwhile k).foldl Retention.apply j) hnext (by omega)
        refine ⟨_, last, ?_, reads_more hnext (later_foldl _ _) hreads⟩
        have hstep : follow f meanwhile (n + 1) k j cursor =
            (follow f meanwhile n (k + 1) ((meanwhile k).foldl Retention.apply j)
              (pageAt f j cursor).nextCursor).map fun rest =>
                ((pageAt f j cursor).items ++ rest.1, rest.2) := if_neg hnext
        rw [hstep, hrun]
        rfl

theorem follow_first (f : Filter) (meanwhile : Nat → List Retention.Op) (j : Retention.Journal) :
    ∃ items last, follow f meanwhile (j.db.nextSeq + 1) 0 j 0 = some (items, last) ∧
      Reads f j 0 items last := by
  by_cases hnext : (pageAt f j 0).nextCursor = 0
  · refine ⟨(pageAt f j 0).items, j, ?_, reads_last hnext⟩
    exact if_pos hnext
  · have hlt := (nextCursor_lt hnext).1
    obtain ⟨items, last, hrun, hreads⟩ := follow_reads f meanwhile (n := j.db.nextSeq)
      (k := 1) (j := (meanwhile 0).foldl Retention.apply j) hnext (Nat.le_of_lt hlt)
    refine ⟨_, last, ?_, reads_more hnext (later_foldl _ _) hreads⟩
    have hstep : follow f meanwhile (j.db.nextSeq + 1) 0 j 0 =
        (follow f meanwhile j.db.nextSeq 1 ((meanwhile 0).foldl Retention.apply j)
          (pageAt f j 0).nextCursor).map fun rest => ((pageAt f j 0).items ++ rest.1, rest.2) :=
      if_neg hnext
    rw [hstep, hrun]
    rfl

/-- How often an event of this `seq` is among those read. -/
def timesRead (items : List Event) (seq : Nat) : Nat := (items.map Event.seq).count seq

def isInsert : Retention.Op → Bool
  | .insertEvent .. => true
  | _ => false

/-- The 5120th system event is inserted after the first page. -/
def trimmingInsert (k : Nat) : List Retention.Op :=
  if k = 0 then [Retention.burstOp 5119] else []

/-- The oldest of 5119 system events goes, and is not the newest of them. -/
theorem trimmed_by_burst (hfilled : Retention.Filled 5119 j) :
    ∃ e ∈ j.db.events, e ∉ (Retention.apply j (Retention.burstOp 5119)).db.events ∧
      ∃ x ∈ j.db.events, e.seq < x.seq := by
  obtain ⟨hlen, hsystem, htrim, -⟩ := Retention.journalled_burstOp hfilled
  obtain ⟨payloads, hjournalled, -⟩ := @Retention.apply_accepted j (toString 5119)
    "2025-06-01T00:00:00Z" "" _ Retention.wholeTrim (rfl : validate Retention.notice = .ok ())
  obtain ⟨new, happend⟩ : ∃ new, (Retention.journalled j (Retention.burstOp 5119)).db.events
      = j.db.events ++ [new] := by
    unfold Retention.burstOp
    rw [hjournalled]
    exact ⟨_, rfl⟩
  obtain ⟨e, rest, hsplit⟩ : ∃ e rest, j.db.events = e :: rest :=
    List.exists_cons_of_length_pos (by rw [hfilled.events]; omega)
  have hmem : e ∈ j.db.events := hsplit ▸ List.mem_cons_self
  have hasc := (Retention.journalled j (Retention.burstOp 5119)).db.ascending
  have hnewer : 5000 ≤ Retention.newer (Retention.journalled j (Retention.burstOp 5119)).db e := by
    -- all the others are newer, and of its category
    rw [happend, hsplit, List.cons_append] at hasc hlen hsystem
    have hall : Retention.ofCategory (Retention.journalled j (Retention.burstOp 5119)).db e.category
        = (Retention.journalled j (Retention.burstOp 5119)).db.events := by
      refine List.filter_eq_self.mpr fun x hx => ?_
      rw [happend, hsplit, List.cons_append] at hx
      rw [hsystem x hx, hsystem e List.mem_cons_self]
      exact beq_self_eq_true _
    unfold Retention.newer
    rw [hall, happend, hsplit, List.cons_append, List.filter_cons_of_neg (by simp),
      List.filter_eq_self.mpr fun x hx => by simpa using (List.pairwise_cons.mp hasc).1 x hx]
    rw [List.length_cons] at hlen
    omega
  refine ⟨e, hmem, ?_, ?_⟩
  · rw [(Retention.events_apply j (Retention.burstOp 5119)).2, htrim]
    intro hkept
    have hdoomed : Retention.doomed Retention.eventRetention (fun _ => .events)
        (Retention.journalled j (Retention.burstOp 5119)).db e = true := by
      refine List.any_eq_true.mpr ⟨(categorySystem, 5000), by decide, ?_⟩
      simp [hsystem e (Retention.mem_journalled hmem), hnewer]
    have hno := (List.mem_filter.mp hkept).2
    simp [Retention.wholeTrim, hdoomed] at hno
  · have hrest : rest ≠ [] := by
      rintro rfl
      have hone := hfilled.events
      rw [hsplit] at hone
      simp at hone
    obtain ⟨x, hx⟩ := List.exists_mem_of_ne_nil rest hrest
    have hascj := j.db.ascending
    rw [hsplit] at hascj ⊢
    exact ⟨x, List.mem_cons_of_mem _ hx, (List.pairwise_cons.mp hascj).1 x hx⟩

theorem newest_of_page {x : Event} (hx : x ∈ (pageAt { limit := 1 } j 0).items) :
    ∀ y ∈ j.db.events, y.seq ≤ x.seq := by
  intro y hy
  have hlen : (pageAt { limit := 1 } j 0).items.length ≤ 1 := by
    unfold pageAt queryEvents
    dsimp only
    rw [List.length_map, List.length_take]
    exact Nat.min_le_left _ _
  by_cases hnext : (pageAt { limit := 1 } j 0).nextCursor = 0
  · have hread := (reads_last hnext).complete y hy rfl (fun hc => absurd rfl hc) hy
    -- both are the one row there is
    obtain ⟨z, hz⟩ := List.length_eq_one_iff.mp
      (Nat.le_antisymm hlen (List.length_pos_of_mem hx))
    rw [hz, List.mem_singleton] at hx hread
    have hsame : (scanEvent y).seq = x.seq := congrArg Event.seq (hread.trans hx.symm)
    exact Nat.le_of_eq hsame
  · obtain ⟨z, hz, hseq⟩ := nextCursor_mem hnext
    obtain ⟨w, hw⟩ := List.length_eq_one_iff.mp
      (Nat.le_antisymm hlen (List.length_pos_of_mem hx))
    by_contra hlt
    have hin : scanEvent y ∈ (pageAt { limit := 1 } j 0).items := by
      refine mem_pageAt.mpr ⟨y, hy, rfl, rfl, fun hc => absurd rfl hc, ?_⟩
      rw [hw, List.mem_singleton] at hx hz
      rw [← hseq, hz, ← hx]
      omega
    rw [hw, List.mem_singleton] at hx hin
    have hsame : (scanEvent y).seq = x.seq := congrArg Event.seq (hin.trans hx.symm)
    exact hlt (Nat.le_of_eq hsame)

end SnmpLens.Pages
