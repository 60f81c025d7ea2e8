import SnmpLens.Router.Model

/-!
# What is owed

An event is *written* once the outbox holds a row for every sink its groups
name, and *owed* while it is journalled and not written. This module has what
each operation on the database does to that, and what the two functions that
compute a mark promise: a mark stays below every seq that is in flight and not
being settled.
-/

namespace SnmpLens.Router

open Events

variable {groupsFor : Event → List RoutedGroup}

/-- Every delivery the event selects has its row in the outbox. -/
def Written (groupsFor : Event → List RoutedGroup) (db : DB) (e : Event) : Prop :=
  ∀ g ∈ groupsFor e, ∀ r ∈ g.rows, r ∈ db.outbox

/-- Journalled, and some delivery it selects is not in the outbox. -/
def Owed (groupsFor : Event → List RoutedGroup) (db : DB) (e : Event) : Prop :=
  e ∈ db.events ∧ ¬ Written groupsFor db e

/-- The watermark's promise about one event: while it is owed, the mark is below it. -/
def SafeFor (groupsFor : Event → List RoutedGroup) (db : DB) (e : Event) : Prop :=
  Owed groupsFor db e → db.routedThrough < e.seq

/-- **The watermark's promise.** Nothing at or below it is owed. -/
def Safe (groupsFor : Event → List RoutedGroup) (db : DB) : Prop :=
  ∀ e, SafeFor groupsFor db e

/-- The seqs of the owed events the watermark has passed, computed. -/
def behind (groupsFor : Event → List RoutedGroup) (db : DB) : List Nat :=
  (db.events.filter fun e => e.seq ≤ db.routedThrough
    && !(groupsFor e).all fun g => g.rows.all fun r => db.outbox.contains r).map Event.seq

/-- The promise fails exactly for the events `behind` lists. -/
theorem mem_behind {db : DB} {seq : Nat} :
    seq ∈ behind groupsFor db ↔ ∃ e, e.seq = seq ∧ ¬ SafeFor groupsFor db e := by
  have hw : ∀ e, ((groupsFor e).all fun g => g.rows.all fun r => db.outbox.contains r) = true
      ↔ Written groupsFor db e := by
    intro e
    simp only [List.all_eq_true, List.contains_iff_mem, Written]
  simp only [behind, List.mem_map, List.mem_filter, Bool.and_eq_true, decide_eq_true_eq,
    Bool.not_eq_true', ← Bool.not_eq_true, hw, SafeFor, Owed]
  constructor
  · rintro ⟨e, ⟨he, hle, hn⟩, rfl⟩
    exact ⟨e, rfl, fun h => absurd (h ⟨he, hn⟩) (Nat.not_lt.mpr hle)⟩
  · rintro ⟨e, rfl, h⟩
    obtain ⟨ho, hle⟩ := Classical.not_imp.mp h
    exact ⟨e, ⟨ho.1, Nat.le_of_not_lt hle, ho.2⟩, rfl⟩

theorem safe_empty : Safe groupsFor DB.empty := by
  intro e he
  simp [Owed, DB.empty] at he

/-! ## The outbox only grows -/

theorem mem_insertRows {outbox rows : List (String × String)} {r : String × String} :
    r ∈ insertRows outbox rows ↔ r ∈ outbox ∨ r ∈ rows := by
  induction rows generalizing outbox with
  | nil => simp [insertRows]
  | cons x rows ih =>
      have hstep : insertRows outbox (x :: rows)
          = insertRows (if outbox.contains x then outbox else outbox ++ [x]) rows := rfl
      rw [hstep, ih, List.mem_cons]
      split
      · rename_i hx
        have hx : x ∈ outbox := by simpa using hx
        constructor
        · rintro (h | h)
          · exact .inl h
          · exact .inr (.inr h)
        · rintro (h | rfl | h)
          · exact .inl h
          · exact .inl hx
          · exact .inr h
      · rw [List.mem_append, List.mem_singleton, or_assoc]

variable {e : Event}

theorem Written.mono {db db' : DB} (h : Written groupsFor db e)
    (hsub : ∀ r ∈ db.outbox, r ∈ db'.outbox) : Written groupsFor db' e :=
  fun g hg r hr => hsub r (h g hg r hr)

theorem outbox_enqueueDeliveries (db : DB) (g : RoutedGroup) :
    ∀ r ∈ db.outbox, r ∈ (db.enqueueDeliveries g).outbox :=
  fun _ hr => mem_insertRows.mpr (.inl hr)

theorem outbox_enqueueRouted (db : DB) (gs : List RoutedGroup) (mark : Nat) :
    ∀ r ∈ db.outbox, r ∈ (db.enqueueRouted gs mark).outbox :=
  fun _ hr => mem_insertRows.mpr (.inl hr)

/-- A committed `EnqueueRouted` has written every event whose groups it was given. -/
theorem written_enqueueRouted {db : DB} {gs : List RoutedGroup} {mark : Nat}
    (h : ∀ g ∈ groupsFor e, g ∈ gs) : Written groupsFor (db.enqueueRouted gs mark) e :=
  fun g hg _ hr => mem_insertRows.mpr (.inr (List.mem_flatMap.mpr ⟨g, h g hg, hr⟩))

theorem Owed.of_outbox {db db' : DB} (h : Owed groupsFor db' e) (hev : db'.events = db.events)
    (hsub : ∀ r ∈ db.outbox, r ∈ db'.outbox) :
    Owed groupsFor db e :=
  ⟨hev ▸ h.1, fun hw => h.2 (hw.mono hsub)⟩

theorem Owed.of_enqueueRouted {db : DB} {gs : List RoutedGroup} {mark : Nat}
    (h : Owed groupsFor (db.enqueueRouted gs mark) e) : Owed groupsFor db e :=
  h.of_outbox rfl (outbox_enqueueRouted db gs mark)

theorem Owed.of_enqueueDeliveries {db : DB} {g : RoutedGroup}
    (h : Owed groupsFor (db.enqueueDeliveries g) e) : Owed groupsFor db e :=
  h.of_outbox rfl (outbox_enqueueDeliveries db g)

theorem Owed.of_delete {db : DB} {gone : List Nat} (h : Owed groupsFor (db.delete gone) e) :
    Owed groupsFor db e :=
  ⟨(List.mem_filter.mp h.1).1, h.2⟩

/-- After an insert, what is owed was owed before or is the new event. -/
theorem Owed.of_append {db : DB} {e x : Event} (h : Owed groupsFor (db.append x) e) :
    Owed groupsFor db e ∨ e = { x with seq := db.nextSeq } := by
  rcases List.mem_append.mp h.1 with h' | h'
  · exact .inl ⟨h', h.2⟩
  · exact .inr (List.mem_singleton.mp h')

/-- `routedThrough` never goes backwards in an `EnqueueRouted`, nor past its mark. -/
theorem routedThrough_enqueueRouted (db : DB) (gs : List RoutedGroup) (mark : Nat) :
    (db.enqueueRouted gs mark).routedThrough = max db.routedThrough mark := by
  simp only [DB.enqueueRouted]
  split <;> omega

/-! ## What a mark promises -/

theorem lowest_eq_zero {l : List Nat} (hpos : ∀ s ∈ l, 0 < s) : lowest l = 0 ↔ l = [] := by
  cases l with
  | nil => simp [lowest]
  | cons s rest =>
      have hs := hpos s List.mem_cons_self
      simp only [lowest, reduceCtorEq, iff_false]
      split
      · omega
      · rename_i h
        simp only [Bool.or_eq_true, beq_iff_eq, decide_eq_true_eq, not_or] at h
        exact h.1

theorem lowest_le {l : List Nat} (hpos : ∀ s ∈ l, 0 < s) {s : Nat} (hs : s ∈ l) :
    lowest l ≤ s := by
  induction l with
  | nil => simp at hs
  | cons x rest ih =>
      have hrest : ∀ s ∈ rest, 0 < s := fun s h => hpos s (List.mem_cons_of_mem _ h)
      simp only [lowest]
      rcases List.mem_cons.mp hs with rfl | h
      · split
        · exact Nat.le_refl _
        · rename_i hc
          simp only [Bool.or_eq_true, beq_iff_eq, decide_eq_true_eq, not_or] at hc
          omega
      · have hle := ih hrest h
        split
        · rename_i hc
          simp only [Bool.or_eq_true, beq_iff_eq, decide_eq_true_eq] at hc
          rcases hc with hc | hc
          · rw [(lowest_eq_zero hrest).mp hc] at h; simp at h
          · omega
        · exact hle

theorem lowest_mem {l : List Nat} (h : 0 < lowest l) : lowest l ∈ l := by
  induction l with
  | nil => simp [lowest] at h
  | cons x rest ih =>
      simp only [lowest] at h ⊢
      split
      · exact List.mem_cons_self
      · rename_i hc
        simp only [Bool.or_eq_true, beq_iff_eq, decide_eq_true_eq, not_or] at hc
        exact List.mem_cons_of_mem _ (ih (Nat.pos_of_ne_zero hc.1))

/-- A seq above everything accepted, or at or above one that stays in flight. -/
def EventRouter.Covers (r : EventRouter) (settling : List Nat) (seq : Nat) : Prop :=
  r.highest < seq ∨ ∃ m ∈ r.inflight, m ∉ settling ∧ m ≤ seq

theorem mem_without {l seqs : List Nat} {s : Nat} :
    s ∈ without l seqs ↔ s ∈ l ∧ s ∉ seqs := by
  simp [without]

variable {r : EventRouter}

/-- **A mark is below a seq exactly when that seq is covered.** -/
theorem markBelow_lt_iff (hpos : ∀ s ∈ r.inflight, 0 < s) {settling : List Nat} {seq : Nat}
    (hle : ∀ s ∈ r.inflight, s ≤ r.highest) :
    markBelow r.highest (without r.inflight settling) < seq ↔ r.Covers settling seq := by
  have hpos' : ∀ s ∈ without r.inflight settling, 0 < s :=
    fun s hs => hpos s (mem_without.mp hs).1
  unfold markBelow
  constructor
  · intro h
    split at h
    · rename_i hl
      obtain ⟨hm, hns⟩ := mem_without.mp (lowest_mem hl)
      exact .inr ⟨_, hm, hns, by omega⟩
    · exact .inl h
  · rintro (h | ⟨m, hm, hns, hle'⟩)
    · split
      · rename_i hl
        have := hle _ (mem_without.mp (lowest_mem hl)).1
        omega
      · exact h
    · have hmem : m ∈ without r.inflight settling := mem_without.mpr ⟨hm, hns⟩
      have hlow := lowest_le hpos' hmem
      have hl : 0 < lowest (without r.inflight settling) := by
        rcases Nat.eq_zero_or_pos (lowest (without r.inflight settling)) with h0 | h0
        · rw [(lowest_eq_zero hpos').mp h0] at hmem; simp at hmem
        · exact h0
      rw [if_pos hl]
      omega

theorem markBelow_le {settling : List Nat} (hle : ∀ s ∈ r.inflight, s ≤ r.highest) :
    markBelow r.highest (without r.inflight settling) ≤ r.highest := by
  unfold markBelow
  split
  · rename_i hl
    have := hle _ (mem_without.mp (lowest_mem hl)).1
    omega
  · exact Nat.le_refl _

theorem markIfSettled_eq (r : EventRouter) (seqs : List Nat) :
    r.markIfSettled seqs = max r.confirmed (markBelow r.highest (without r.inflight seqs)) := by
  simp only [EventRouter.markIfSettled]
  split <;> omega

theorem confirmed_settle (r : EventRouter) (seqs : List Nat) :
    (r.settle seqs).confirmed
      = max r.confirmed (markBelow r.highest (without r.inflight seqs)) := by
  simp only [EventRouter.settle]
  split <;> omega

@[simp] theorem highest_settle (r : EventRouter) (seqs : List Nat) :
    (r.settle seqs).highest = r.highest := rfl

@[simp] theorem inflight_settle (r : EventRouter) (seqs : List Nat) :
    (r.settle seqs).inflight = without r.inflight seqs := rfl

@[simp] theorem phase_settle (r : EventRouter) (seqs : List Nat) :
    (r.settle seqs).phase = r.phase := rfl

theorem highest_register (r : EventRouter) (seq : Nat) :
    (r.register seq).highest = max r.highest seq := by
  simp only [EventRouter.register]
  split <;> omega

theorem mem_inflight_register {seq s : Nat} :
    s ∈ (r.register seq).inflight ↔ s = seq ∨ s ∈ r.inflight := by
  simp only [EventRouter.register]
  split
  · rename_i h
    have h : seq ∈ r.inflight := by simpa using h
    constructor
    · exact .inr
    · rintro (rfl | h')
      · exact h
      · exact h'
  · exact List.mem_cons

@[simp] theorem confirmed_register (r : EventRouter) (seq : Nat) :
    (r.register seq).confirmed = r.confirmed := rfl

@[simp] theorem phase_register (r : EventRouter) (seq : Nat) :
    (r.register seq).phase = r.phase := rfl

/-- Deferring changes the deferred list and nothing else. -/
theorem defer1_frame (r : EventRouter) (e : Event) :
    r.defer1 e = { r with deferred := (r.defer1 e).deferred } := by
  unfold EventRouter.defer1
  split <;> rfl

theorem foldl_defer1_frame (es : List Event) (r : EventRouter) :
    es.foldl EventRouter.defer1 r
      = { r with deferred := (es.foldl EventRouter.defer1 r).deferred } := by
  induction es generalizing r with
  | nil => rfl
  | cons e es ih =>
      rw [List.foldl_cons, ih, defer1_frame]

theorem mem_deferred_defer1 {e x : Event} (h : x ∈ (r.defer1 e).deferred) :
    x ∈ r.deferred ∨ x = e := by
  unfold EventRouter.defer1 at h
  split at h
  · exact .inl h
  · simpa using h

theorem mem_deferred_foldl {es : List Event} {x : Event}
    (h : x ∈ (es.foldl EventRouter.defer1 r).deferred) : x ∈ r.deferred ∨ x ∈ es := by
  induction es generalizing r with
  | nil => exact .inl h
  | cons e es ih =>
      rcases ih h with h' | h'
      · rcases mem_deferred_defer1 h' with h'' | rfl
        · exact .inl h''
        · exact .inr List.mem_cons_self
      · exact .inr (List.mem_cons_of_mem _ h')

end SnmpLens.Router
