import SnmpLens.Events.Store

/-!
# The list is a window of the journal

Once the last `load` is answered, the list is what its filter takes between two `seq`s: from a
lower one that is not above `nextCursor`, to an upper one, and the messages of everything newer are
on their way. `Spans` is that, and every step that is `Timely` keeps it.

The rows of a page are read from the journal as it was when the query ran. The journal has only
grown since, by events that are newer than all it had, so that a page below a cursor is still what
the journal has below it.
-/

namespace SnmpLens.EventList

open Events Router Cursor Machine

/-! ## Rows, their ids and their `seq`s -/

variable {f : Filter} {lo hi : Nat} {rows xs ys : List Event} {e : Event}

theorem map_id_of_key (h : xs.map key = ys.map key) : xs.map Event.id = ys.map Event.id := by
  have hsnd := congrArg (List.map Prod.snd) h
  rwa [List.map_map, List.map_map] at hsnd

theorem map_seq_of_key (h : xs.map key = ys.map key) : xs.map Event.seq = ys.map Event.seq := by
  have hfst := congrArg (List.map Prod.fst) h
  rwa [List.map_map, List.map_map] at hfst

theorem between_append (h : hi < e.seq) : between f lo hi (rows ++ [e]) = between f lo hi rows := by
  have hout : ¬ e.seq ≤ hi := by omega
  unfold between taken
  rw [List.reverse_append, List.reverse_singleton, List.singleton_append, List.filter_cons]
  split
  · rw [List.filter_cons_of_neg (by simp [hout])]
  · rfl

variable {newest : Nat}

theorem between_upTo (h : hi ≤ newest) :
    between f lo hi (rows.filter fun e => e.seq ≤ newest) = between f lo hi rows := by
  unfold between taken
  rw [← List.filter_reverse, List.filter_filter, List.filter_filter, List.filter_filter]
  refine List.filter_congr fun e _ => ?_
  rw [Bool.eq_iff_iff]
  simp only [Bool.and_eq_true, decide_eq_true_eq]
  constructor
  · exact fun hrow => hrow.1
  · exact fun hrow => ⟨hrow, hrow.1.2.trans h⟩

theorem filter_upTo_append (h : newest < e.seq) :
    (rows ++ [e]).filter (fun e => decide (e.seq ≤ newest)) = rows.filter fun e => e.seq ≤ newest := by
  have hout : ¬ e.seq ≤ newest := by omega
  rw [List.filter_append, List.filter_cons_of_neg (by simp [hout]), List.filter_nil, List.append_nil]

theorem mem_of_id (hunique : (rows.map Event.id).Nodup) (hxs : ∀ x ∈ xs, x ∈ rows) (he : e ∈ rows) :
    e.id ∈ xs.map Event.id ↔ e ∈ xs := by
  refine ⟨fun hid => ?_, List.mem_map_of_mem⟩
  obtain ⟨x, hx, hid⟩ := List.mem_map.mp hid
  rw [← List.inj_on_of_nodup_map hunique (hxs x hx) he hid]
  exact hx

/-! ## One row per id -/

theorem dedupeFrom_congr {seen seen' : List String} (h : ∀ i, i ∈ seen ↔ i ∈ seen') :
    dedupeFrom seen xs = dedupeFrom seen' xs := by
  induction xs generalizing seen seen' with
  | nil => rfl
  | cons x xs ih =>
      have hcontains : seen.contains x.id = seen'.contains x.id := by
        rw [Bool.eq_iff_iff, List.contains_iff_mem, List.contains_iff_mem]
        exact h x.id
      rw [dedupeFrom, dedupeFrom, hcontains, ih h,
        @ih (x.id :: seen) (x.id :: seen') fun i => by simp [h i]]

theorem dedupeFrom_append (seen : List String) :
    dedupeFrom seen (xs ++ ys) =
      dedupeFrom seen xs ++ dedupeFrom (xs.map Event.id ++ seen) ys := by
  induction xs generalizing seen with
  | nil => rfl
  | cons x xs ih =>
      rw [List.cons_append, dedupeFrom, dedupeFrom]
      split
      · rename_i hseen
        rw [ih]
        congr 1
        refine dedupeFrom_congr fun i => ?_
        have hx : x.id ∈ seen := List.contains_iff_mem.mp hseen
        simp only [List.map_cons, List.cons_append, List.mem_cons, List.mem_append]
        constructor
        · exact .inr
        · rintro (rfl | hi)
          · exact .inr hx
          · exact hi
      · rw [ih, List.cons_append]
        congr 2
        refine dedupeFrom_congr fun i => ?_
        simp only [List.map_cons, List.cons_append, List.mem_cons, List.mem_append]
        tauto

theorem dedupeFrom_of_nodup {seen : List String} (h : (xs.map Event.id).Nodup) :
    dedupeFrom seen xs = xs.filter fun e => !seen.contains e.id := by
  induction xs generalizing seen with
  | nil => rfl
  | cons x xs ih =>
      obtain ⟨hx, hxs⟩ := List.nodup_cons.mp h
      rw [dedupeFrom, List.filter_cons]
      by_cases hseen : seen.contains x.id = true
      · simp only [hseen, if_true, Bool.not_true, Bool.false_eq_true, if_false]
        exact ih hxs
      · simp only [hseen, if_false, Bool.not_false, if_true, Bool.false_eq_true]
        rw [ih hxs]
        congr 1
        refine List.filter_congr fun y hy => ?_
        have hne : y.id ≠ x.id := fun heq => hx (heq ▸ List.mem_map_of_mem hy)
        simp [hne]

theorem dedupeFrom_sublist (seen : List String) : (dedupeFrom seen xs).Sublist xs := by
  induction xs generalizing seen with
  | nil => exact .slnil
  | cons x xs ih =>
      rw [dedupeFrom]
      split
      · exact (ih _).cons _
      · exact (ih _).cons_cons _

/-- A page put at the end of the list adds the rows the list does not have. -/
theorem dedupeById_append (hx : (xs.map Event.id).Nodup) (hy : (ys.map Event.id).Nodup) :
    dedupeById (xs ++ ys) = xs ++ ys.filter fun e => !(xs.map Event.id).contains e.id := by
  unfold dedupeById
  rw [dedupeFrom_append, dedupeFrom_of_nodup hx, List.append_nil, dedupeFrom_of_nodup hy,
    List.filter_eq_self.mpr fun e _ => by simp]

/-! ## What a query finds -/

theorem mem_queryEvents (he : e ∈ (queryEvents rows f).items) : ∃ row ∈ rows, scanEvent row = e := by
  obtain ⟨row, hrow, heq⟩ := List.mem_map.mp he
  exact ⟨row, (mem_taken.mp (List.mem_of_mem_filter (List.mem_of_mem_take hrow))).1, heq⟩

/-- There is a next page only where there is a last row, and it is below it. -/
theorem nextCursor_queryEvents :
    (queryEvents rows f).nextCursor = 0 ∨
      ∃ e ∈ (queryEvents rows f).items, e.seq = (queryEvents rows f).nextCursor := by
  unfold queryEvents
  dsimp only
  split
  · rename_i hfull
    have hne : ((((taken f rows).filter fun e => f.beforeSeq == 0 || e.seq < f.beforeSeq).take
        f.pageLimit).map scanEvent) ≠ [] := by
      intro hnil
      rw [hnil] at hfull
      exact absurd hfull (pageLimit_pos f).ne
    obtain ⟨e, hlast⟩ := Option.isSome_iff_exists.mp (List.getLast?_isSome.mpr hne)
    rw [hlast]
    exact .inr ⟨e, List.mem_of_getLast? hlast, rfl⟩
  · exact .inl rfl

/-! ## The window as it moves -/

namespace State

/-- The list is what the filter takes from `lo` to `hi`, and what is newer is on its way. -/
structure Spans (s : State) (f : Filter) (lo hi : Nat) : Prop where
  filter : s.store.filter = f
  items : s.store.items.map key = (between f lo hi s.rows).map key
  cursor : lo ≤ s.store.nextCursor
  nonempty : s.store.items = [] → s.store.nextCursor = 0
  below : hi < s.journal.db.nextSeq
  waiting : ∀ e ∈ s.rows, buildEventWhere f e = true → hi < e.seq → e ∈ s.messages

/-- The page was found when the newest `seq` was `newest`. -/
structure Answered (s : State) (c : Call) (page : Page) (newest : Nat) : Prop where
  below : newest < s.journal.db.nextSeq
  cursor : c.cursor ≤ newest + 1
  page : page = queryEvents (s.rows.filter fun e => e.seq ≤ newest)
    { c.filter with beforeSeq := c.cursor }

structure Called (s : State) (c : Call) : Prop where
  id : c.id < s.nextCall
  cursor : c.cursor ≤ s.journal.db.nextSeq
  more : c.more = true ↔ c.cursor ≠ 0
  answered : ∀ page newest, c.answer = some (page, newest) → s.Answered c page newest

structure Kept (s : State) : Prop where
  sorted : Ascends s.messages
  sent : ∀ e ∈ s.messages, e ∈ s.rows
  items : ∀ e ∈ s.store.items, e.seq < s.journal.db.nextSeq
  cursor : s.store.nextCursor < s.journal.db.nextSeq
  calls : ∀ c ∈ s.calls, s.Called c
  last : ∀ id f, s.last = some (id, f) → id < s.nextCall ∧ ∀ c ∈ s.calls, c.id = id → c.more = false
  window : ∀ f, s.shown = some f → ∃ lo hi, s.Spans f lo hi

variable {s t : State}

theorem ascends_rows (s : State) : Ascends s.rows := s.journal.db.ascending

theorem lt_nextSeq (he : e ∈ s.rows) : e.seq < s.journal.db.nextSeq := s.journal.db.below e he

theorem nodup_between (s : State) (f : Filter) (lo hi : Nat) :
    ((between f lo hi s.rows).map Event.id).Nodup := by
  have hsub : (between f lo hi s.rows).Sublist s.rows.reverse :=
    List.filter_sublist.trans List.filter_sublist
  refine (hsub.map Event.id).nodup ?_
  rw [List.map_reverse, List.nodup_reverse]
  exact s.journal.unique

namespace Spans

/-- The window is one of the rows, the messages and these fields of the list. -/
theorem same (h : s.Spans f lo hi) (hjournal : t.journal = s.journal)
    (hmessages : t.messages = s.messages) (hitems : t.store.items = s.store.items)
    (hcursor : t.store.nextCursor = s.store.nextCursor) (hfilter : t.store.filter = s.store.filter) :
    t.Spans f lo hi where
  filter := hfilter.trans h.filter
  items := by
    rw [hitems, rows, hjournal]
    exact h.items
  cursor := hcursor ▸ h.cursor
  nonempty := by
    rw [hitems, hcursor]
    exact h.nonempty
  below := hjournal ▸ h.below
  waiting := by
    rw [rows, hjournal, hmessages]
    exact h.waiting

theorem mem_ids (h : s.Spans f lo hi) (he : e ∈ s.rows) :
    e.id ∈ s.store.items.map Event.id ↔
      buildEventWhere f e = true ∧ lo ≤ e.seq ∧ e.seq ≤ hi := by
  have hsub : ∀ x ∈ between f lo hi s.rows, x ∈ s.rows := fun x hx => (mem_between.mp hx).1.1
  rw [map_id_of_key h.items, mem_of_id s.journal.unique hsub he, mem_between]
  simp only [he, true_and]

/-- The `seq`s on the list are those of events it spans. -/
theorem bounds (h : s.Spans f lo hi) (he : e ∈ s.store.items) : lo ≤ e.seq ∧ e.seq ≤ hi := by
  have hseq : e.seq ∈ (between f lo hi s.rows).map Event.seq := by
    rw [← map_seq_of_key h.items]
    exact List.mem_map_of_mem he
  obtain ⟨row, hrow, heq⟩ := List.mem_map.mp hseq
  rw [← heq]
  exact (mem_between.mp hrow).2

theorem lo_le (h : s.Spans f lo hi) : lo ≤ hi + 1 := by
  rcases hitems : s.store.items with _ | ⟨e, items⟩
  · have hzero := h.nonempty hitems
    have hlo := h.cursor
    omega
  · have he := h.bounds (e := e) (hitems ▸ List.mem_cons_self)
    omega

/-- An event that matches and is neither on the list nor older than one there is still to come. -/
theorem newer (h : s.Spans f lo hi) (he : e ∈ s.rows) (hwhere : buildEventWhere f e = true)
    (hout : e.id ∉ s.store.items.map Event.id) (hnew : ∀ x ∈ s.store.items, x.seq < e.seq) :
    hi < e.seq := by
  by_contra hle
  rw [h.mem_ids he] at hout
  rcases hitems : s.store.items with _ | ⟨x, items⟩
  · have hzero := h.nonempty hitems
    have hlo := h.cursor
    exact hout ⟨hwhere, by omega, by omega⟩
  · have hmem : x ∈ s.store.items := hitems ▸ List.mem_cons_self
    have hx := h.bounds hmem
    have hlt := hnew x hmem
    exact hout ⟨hwhere, by omega, by omega⟩

end Spans

/-! ## What each writer of the list does -/

theorem between_cons (h : Ascends rows) (he : e ∈ rows) (hwhere : buildEventWhere f e = true)
    (hlo : lo ≤ e.seq) (hhi : hi < e.seq)
    (hgap : ∀ x ∈ rows, buildEventWhere f x = true → hi < x.seq → e.seq ≤ x.seq) :
    between f lo e.seq rows = e :: between f lo hi rows := by
  have hseqs : (rows.map Event.seq).Nodup := List.pairwise_map.mpr (h.imp fun hlt => hlt.ne)
  refine Descends.eq_of_mem_iff (descends_between h f _ _) ?_ fun x => ?_
  · refine List.pairwise_cons.mpr ⟨fun x hx => ?_, descends_between h f _ _⟩
    exact (mem_between.mp hx).2.2.trans_lt hhi
  · rw [List.mem_cons, mem_between, mem_between]
    constructor
    · rintro ⟨hx, hxlo, hxhi⟩
      by_cases hin : x.seq ≤ hi
      · exact .inr ⟨hx, hxlo, hin⟩
      · -- two rows have one `seq` only if they are one
        have hseq : x.seq = e.seq := hxhi.antisymm (hgap x hx.1 hx.2 (by omega))
        exact .inl (List.inj_on_of_nodup_map hseqs hx.1 he hseq)
    · rintro (rfl | ⟨hx, hxlo, hxhi⟩)
      · exact ⟨⟨he, hwhere⟩, hlo, le_rfl⟩
      · exact ⟨hx, hxlo, hxhi.trans hhi.le⟩

/-- The live tail is cut at a row, which is where the next page begins. -/
theorem between_take (h : Ascends rows) {n : Nat} {x : Event}
    (hx : ((between f lo hi rows).take n).getLast? = some x) :
    between f x.seq hi rows = (between f lo hi rows).take n := by
  have hmem : x ∈ between f lo hi rows := List.mem_of_mem_take (List.mem_of_getLast? hx)
  have hlo := (mem_between.mp hmem).2.1
  rw [take_of_getLast (descends_between h f _ _) hx]
  unfold between
  rw [List.filter_filter]
  refine List.filter_congr fun e _ => ?_
  rw [Bool.eq_iff_iff]
  simp only [Bool.and_eq_true, decide_eq_true_eq]
  constructor
  · exact fun hrow => ⟨hrow.1, hlo.trans hrow.1, hrow.2⟩
  · exact fun hrow => ⟨hrow.1, hrow.2.2⟩

theorem between_split (h : Ascends rows) {cut : Nat} (hcut : cut ≤ lo) :
    between f cut hi rows =
      between f lo hi rows ++ (between f cut hi rows).filter fun e => decide (e.seq < lo) := by
  refine Descends.eq_of_mem_iff (descends_between h f _ _) ?_ fun x => ?_
  · refine List.pairwise_append.mpr
      ⟨descends_between h f _ _, (descends_between h f _ _).filter _, fun x hx y hy => ?_⟩
    have hxlo := (mem_between.mp hx).2.1
    have hylo := of_decide_eq_true (List.mem_filter.mp hy).2
    omega
  · simp only [List.mem_append, List.mem_filter, mem_between, decide_eq_true_eq]
    constructor
    · rintro ⟨hx, hxcut, hxhi⟩
      by_cases hin : lo ≤ x.seq
      · exact .inl ⟨hx, hin, hxhi⟩
      · exact .inr ⟨⟨hx, hxcut, hxhi⟩, by omega⟩
    · rintro (⟨hx, hxlo, hxhi⟩ | ⟨hx, -⟩)
      · exact ⟨hx, hcut.trans hxlo, hxhi⟩
      · exact hx

variable {messages : List Event}

/-- A message whose event the list does not take. -/
theorem Spans.skipped (h : s.Spans f lo hi) (hmessages : s.messages = e :: messages)
    (hnot : ¬ (buildEventWhere f e = true ∧ hi < e.seq)) :
    Spans { s with messages } f lo hi where
  filter := h.filter
  items := h.items
  cursor := h.cursor
  nonempty := h.nonempty
  below := h.below
  waiting x hx hwhere hnew := by
    rcases List.mem_cons.mp (hmessages ▸ h.waiting x hx hwhere hnew) with rfl | hrest
    · exact absurd ⟨hwhere, hnew⟩ hnot
    · exact hrest

/-- A message whose event is put on the list. -/
theorem Spans.prepended (h : s.Spans f lo hi) (hmessages : s.messages = e :: messages)
    (hsorted : Ascends s.messages) (he : e ∈ s.rows) (hwhere : buildEventWhere f e = true)
    (hnew : hi < e.seq) :
    ∃ lo, Spans { s with messages, store := s.store.prepended e } f lo e.seq := by
  rw [hmessages] at hsorted
  obtain ⟨hfirst, -⟩ := List.pairwise_cons.mp hsorted
  have hgap : ∀ x ∈ s.rows, buildEventWhere f x = true → hi < x.seq → e.seq ≤ x.seq := by
    intro x hx hxwhere hxnew
    rcases List.mem_cons.mp (hmessages ▸ h.waiting x hx hxwhere hxnew) with rfl | hrest
    · exact le_rfl
    · exact (hfirst x hrest).le
  have hwaiting : ∀ x ∈ s.rows, buildEventWhere f x = true → e.seq < x.seq → x ∈ messages := by
    intro x hx hxwhere hxnew
    rcases List.mem_cons.mp (hmessages ▸ h.waiting x hx hxwhere (hnew.trans hxnew)) with rfl | hrest
    · exact absurd hxnew (lt_irrefl _)
    · exact hrest
  have hlo : lo ≤ e.seq := by
    have hle := h.lo_le
    omega
  have hspan : between f lo e.seq s.rows = e :: between f lo hi s.rows :=
    between_cons (ascends_rows s) he hwhere hlo hnew hgap
  have hitems : (e :: s.store.items).map key = (between f lo e.seq s.rows).map key := by
    rw [hspan, List.map_cons, List.map_cons, h.items]
  by_cases hfits : (e :: s.store.items).length ≤ maxLiveItems
  · refine ⟨lo, ?_⟩
    rw [Store.prepended, if_pos hfits]
    exact
      { filter := h.filter
        items := hitems
        cursor := h.cursor
        nonempty := fun hnil => by cases hnil
        below := lt_nextSeq he
        waiting := hwaiting }
  · -- the tail is cut, and the cursor is the last row kept
    have hkept : ((e :: s.store.items).take maxLiveItems).map key =
        ((between f lo e.seq s.rows).take maxLiveItems).map key := by
      rw [List.map_take, List.map_take, hitems]
    have hne : (e :: s.store.items).take maxLiveItems ≠ [] := by
      intro hnil
      exact absurd hnil (by simp [maxLiveItems])
    obtain ⟨last, hlast⟩ := Option.isSome_iff_exists.mp (List.getLast?_isSome.mpr hne)
    have hrow : ∃ row, ((between f lo e.seq s.rows).take maxLiveItems).getLast? = some row ∧
        row.seq = last.seq := by
      have hmap := congrArg (List.getLast? ∘ List.map Prod.fst) hkept
      simp only [Function.comp, List.map_map, List.getLast?_map, hlast, Option.map_some] at hmap
      obtain ⟨row, hrow, heq⟩ := Option.map_eq_some_iff.mp hmap.symm
      exact ⟨row, hrow, heq⟩
    obtain ⟨row, hrow, hseq⟩ := hrow
    have hmem : row ∈ s.rows :=
      (mem_between.mp (List.mem_of_mem_take (List.mem_of_getLast? hrow))).1.1
    have hpos : last.seq ≠ 0 := by
      have hpos := s.journal.db.positive row hmem
      omega
    have hcursor : s.store.cursorAt ((e :: s.store.items).take maxLiveItems) = last.seq := by
      rw [Store.cursorAt, hlast]
      exact if_neg hpos
    refine ⟨row.seq, ?_⟩
    rw [Store.prepended, if_neg hfits, hcursor]
    exact
      { filter := h.filter
        items := by
          rw [show rows { s with messages, store := _ } = s.rows from rfl,
            between_take (ascends_rows s) hrow]
          exact hkept
        cursor := hseq.le
        nonempty := fun hnil => absurd hnil hne
        below := lt_nextSeq he
        waiting := hwaiting }

/-- **A message that arrives keeps the window.** -/
theorem Spans.eventNew (h : s.Spans f lo hi) (hmessages : s.messages = e :: messages)
    (hsorted : Ascends s.messages) (he : e ∈ s.rows) (hshows : s.Shows f e) :
    ∃ lo hi, Spans { s with messages, store := s.store.eventNew e } f lo hi := by
  have hfilter := h.filter
  unfold Shows at hshows
  have hskip : ¬ (s.store.nextCursor ≠ 0 ∧ s.store.items = []) := fun hno =>
    hno.1 (h.nonempty hno.2)
  by_cases hwhere : buildEventWhere f e = true
  · rw [if_pos hwhere] at hshows
    by_cases hid : e.id ∈ s.store.items.map Event.id
    · -- the page had the event already
      have hsame : s.store.eventNew e = s.store := by
        unfold Store.eventNew
        rw [if_neg hskip, if_pos hid, ite_self]
      have hhi := ((h.mem_ids he).mp hid).2.2
      rw [hsame]
      exact ⟨lo, hi, h.skipped hmessages fun hno => absurd hhi (by omega)⟩
    · obtain ⟨hmatches, hnewer⟩ := hshows.resolve_left hid
      have hput : s.store.eventNew e = s.store.prepended e := by
        unfold Store.eventNew
        rw [if_neg hskip, if_neg (by simp [hfilter, hmatches]), if_neg hid]
      obtain ⟨lo, hspans⟩ := h.prepended hmessages hsorted he hwhere (h.newer he hwhere hid hnewer)
      rw [hput]
      exact ⟨lo, e.seq, hspans⟩
  · rw [if_neg hwhere] at hshows
    have hsame : s.store.eventNew e = s.store := by
      unfold Store.eventNew
      rw [if_neg hskip, if_pos (hfilter.symm ▸ hshows)]
    rw [hsame]
    exact ⟨lo, hi, h.skipped hmessages fun hno => hwhere hno.1⟩

variable {c : Call} {page : Page}

/-- The rows of a page, as the journal has them now. -/
theorem Answered.items (h : s.Answered c page newest) :
    page.items = (between c.filter page.nextCursor (Below c.cursor newest) s.rows).map scanEvent := by
  have hascends : Ascends (s.rows.filter fun e => decide (e.seq ≤ newest)) :=
    List.Pairwise.filter _ (ascends_rows s)
  have hbelow : Below c.cursor newest ≤ newest := by
    have hcursor := h.cursor
    unfold Below
    split <;> omega
  rw [h.page, queryEvents_items hascends fun e he => of_decide_eq_true (List.mem_filter.mp he).2,
    between_upTo hbelow]

theorem Answered.nonempty (h : s.Answered c page newest) (hnil : page.items = []) :
    page.nextCursor = 0 := by
  have hpage := h.page
  subst hpage
  refine nextCursor_queryEvents.resolve_right ?_
  rintro ⟨e, he, -⟩
  rw [hnil] at he
  cases he

/-- **The answer of a `load` is a window**, where the messages it is too old for are to come. -/
theorem Answered.loaded (h : s.Answered c page newest) (hcursor : c.cursor = 0)
    (hcovers : s.Covers c.filter newest) :
    Spans { s with store := .loaded c.filter page } c.filter page.nextCursor newest where
  filter := rfl
  items := by
    show page.items.map key = _
    rw [h.items, map_key_scanEvent, Below, if_pos hcursor]
    rfl
  cursor := le_rfl
  nonempty := h.nonempty
  below := h.below
  waiting := hcovers

/-- The rows of a page that the list does not have are those below it. -/
theorem Spans.fresh (h : s.Spans f lo hi) {cut cursor : Nat} (hcursor : cursor ≠ 0)
    (hcontinues : s.Continues f cursor) :
    (between f cut (cursor - 1) s.rows).filter
        (fun e => !(s.store.items.map Event.id).contains e.id) =
      (between f cut hi s.rows).filter fun e => decide (e.seq < lo) := by
  refine Descends.eq_of_mem_iff ((descends_between (ascends_rows s) f _ _).filter _)
    ((descends_between (ascends_rows s) f _ _).filter _) fun e => ?_
  simp only [List.mem_filter, mem_between, Bool.not_eq_true', decide_eq_true_eq]
  rw [← Bool.not_eq_true, List.contains_iff_mem]
  constructor
  · rintro ⟨⟨⟨he, hwhere⟩, hcut, hle⟩, hout⟩
    rcases hcontinues e he hwhere with hin | ⟨habove, -⟩ | ⟨-, x, hx, hlt⟩
    · exact absurd hin hout
    · omega
    · have hbounds := h.bounds hx
      rw [h.mem_ids he] at hout
      have hlo : e.seq < lo := by
        by_contra hge
        exact hout ⟨hwhere, by omega, by omega⟩
      exact ⟨⟨⟨he, hwhere⟩, hcut, by omega⟩, hlo⟩
  · rintro ⟨⟨⟨he, hwhere⟩, hcut, hle⟩, hlo⟩
    have hout : e.id ∉ s.store.items.map Event.id := by
      rw [h.mem_ids he]
      omega
    refine ⟨⟨⟨he, hwhere⟩, hcut, ?_⟩, hout⟩
    rcases hcontinues e he hwhere with hin | ⟨-, hnewer⟩ | ⟨hbelow, -⟩
    · exact absurd hin hout
    · have hnew := h.newer he hwhere hout hnewer
      omega
    · omega

/-- **The page of a `loadMore` continues the window.** -/
theorem Spans.appended (h : s.Spans f lo hi) (ha : s.Answered c page newest)
    (hcursor : c.cursor ≠ 0) (hfilter : c.filter = f) (hcontinues : s.Continues f c.cursor) :
    ∃ lo, Spans { s with store := s.store.appended page } f lo hi := by
  subst hfilter
  have hpage := ha.items
  rw [Below, if_neg hcursor] at hpage
  have hids : (page.items.map Event.id).Nodup := by
    rw [hpage, map_id_of_key (map_key_scanEvent _)]
    exact nodup_between s _ _ _
  have hlist : (s.store.items.map Event.id).Nodup := by
    rw [map_id_of_key h.items]
    exact nodup_between s _ _ _
  have hdedupe := dedupeById_append hlist hids
  have hkeys : (dedupeById (s.store.items ++ page.items)).map key =
      (between c.filter lo hi s.rows ++ (between c.filter page.nextCursor hi s.rows).filter
        fun e => decide (e.seq < lo)).map key := by
    rw [hdedupe, List.map_append, List.map_append, h.items, ← h.fresh hcursor hcontinues, hpage,
      List.filter_map, map_key_scanEvent]
    rfl
  have hnil : dedupeById (s.store.items ++ page.items) = [] → page.nextCursor = 0 := by
    intro hnil
    rw [hdedupe, List.append_eq_nil_iff] at hnil
    refine ha.nonempty ?_
    rw [← hnil.2, hnil.1]
    exact (List.filter_eq_self.mpr fun e _ => by simp).symm
  by_cases hcut : page.nextCursor ≤ lo
  · refine ⟨page.nextCursor, ?_⟩
    exact
      { filter := h.filter
        items := by rw [between_split (ascends_rows _) hcut]; exact hkeys
        cursor := le_rfl
        nonempty := hnil
        below := h.below
        waiting := h.waiting }
  · -- the page is all on the list
    have hempty : (between c.filter page.nextCursor hi s.rows).filter
        (fun e => decide (e.seq < lo)) = [] := by
      rw [List.filter_eq_nil_iff]
      intro e he
      have hge := (mem_between.mp he).2.1
      simp only [decide_eq_true_eq]
      omega
    rw [hempty, List.append_nil] at hkeys
    exact ⟨lo,
      { filter := h.filter
        items := hkeys
        cursor := (not_le.mp hcut).le
        nonempty := hnil
        below := h.below
        waiting := h.waiting }⟩

/-! ## What every step keeps -/

theorem shown_eq_some :
    s.shown = some f ↔ ∃ id, s.last = some (id, f) ∧ id ∉ s.calls.map Call.id := by
  unfold shown
  rw [Option.bind_eq_some_iff]
  constructor
  · rintro ⟨⟨id, g⟩, hlast, hg⟩
    dsimp only at hg
    split at hg
    · cases hg
    · rename_i hnot
      obtain rfl := Option.some.inj hg
      exact ⟨id, hlast, fun hmem => hnot (List.contains_iff_mem.mpr hmem)⟩
  · rintro ⟨id, hlast, hnot⟩
    refine ⟨(id, f), hlast, if_neg ?_⟩
    rwa [List.contains_iff_mem]

/-- What was called stays so while the journal and the calls grow. -/
theorem Called.mono (h : s.Called c) (hcalls : s.nextCall ≤ t.nextCall)
    (hjournal : t.journal = s.journal) : t.Called c where
  id := h.id.trans_le hcalls
  cursor := hjournal ▸ h.cursor
  more := h.more
  answered page newest ha :=
    have hanswered := h.answered page newest ha
    { below := hjournal ▸ hanswered.below
      cursor := hanswered.cursor
      page := by
        rw [rows, hjournal]
        exact hanswered.page }

theorem rows_insertEvent {j j' : Journal} {uuid now : String} {payload : Nat} {saved : Event}
    (h : j.insertEvent uuid now payload e = some (j', saved)) :
    j'.db.events = j.db.events ++ [saved] ∧ j'.db.nextSeq = j.db.nextSeq + 1 ∧
      saved.seq = j.db.nextSeq := by
  unfold Journal.insertEvent at h
  split at h
  · cases h
  · split at h
    · cases h
    · obtain ⟨rfl, rfl⟩ := Prod.mk.inj (Option.some.inj h)
      exact ⟨rfl, rfl, rfl⟩

theorem kept_insert (h : s.Kept) {uuid now : String} {payload : Nat}
    (ht : s.step (.insert uuid now payload e) = some t) : t.Kept := by
  obtain ⟨⟨journal, saved⟩, hinsert, rfl⟩ := Option.map_eq_some_iff.mp ht
  obtain ⟨hrows, hnext, hseq⟩ := rows_insertEvent hinsert
  have hold : ∀ x ∈ s.rows, x ∈ journal.db.events := fun x hx =>
    hrows ▸ List.mem_append_left _ hx
  have hlast : saved ∈ journal.db.events := hrows ▸ List.mem_append_right _ (List.mem_singleton_self _)
  have hgrows : s.journal.db.nextSeq ≤ journal.db.nextSeq := by omega
  show Kept { s with journal, messages := s.messages ++ [saved] }
  refine
    { sorted := List.pairwise_append.mpr ⟨h.sorted, List.pairwise_singleton _ _, fun x hx y hy => ?_⟩
      sent := fun x hx => ?_
      items := fun x hx => (h.items x hx).trans_le hgrows
      cursor := h.cursor.trans_le hgrows
      calls := fun c hc => ?_
      last := h.last
      window := fun f hf => ?_ }
  · rw [List.mem_singleton.mp hy, hseq]
    exact lt_nextSeq (h.sent x hx)
  · rcases List.mem_append.mp hx with hx | hx
    · exact hold x (h.sent x hx)
    · rw [List.mem_singleton.mp hx]
      exact hlast
  · have hcalled := h.calls c hc
    refine
      { id := hcalled.id
        cursor := hcalled.cursor.trans hgrows
        more := hcalled.more
        answered := fun page newest ha => ?_ }
    have hanswered := hcalled.answered page newest ha
    have hbelow := hanswered.below
    refine
      { below := hbelow.trans_le hgrows
        cursor := hanswered.cursor
        page := ?_ }
    -- the query did not see the event
    show page = queryEvents (journal.db.events.filter _) _
    rw [hrows, filter_upTo_append (by omega)]
    exact hanswered.page
  · obtain ⟨lo, hi, hspans⟩ := h.window f hf
    have hbelow := hspans.below
    refine ⟨lo, hi,
      { filter := hspans.filter
        items := ?_
        cursor := hspans.cursor
        nonempty := hspans.nonempty
        below := hbelow.trans_le hgrows
        waiting := fun x hx hwhere hnew => ?_ }⟩
    · show _ = (between f lo hi journal.db.events).map key
      rw [hrows, between_append (by omega)]
      exact hspans.items
    · change x ∈ journal.db.events at hx
      rw [hrows] at hx
      rcases List.mem_append.mp hx with hx | hx
      · exact List.mem_append_left _ (hspans.waiting x hx hwhere hnew)
      · exact List.mem_append_right _ hx

theorem mem_eventNew {x : Event} (hx : x ∈ (s.store.eventNew e).items) :
    x = e ∨ x ∈ s.store.items := by
  unfold Store.eventNew at hx
  split at hx
  · exact .inr hx
  · split at hx
    · exact .inr hx
    · split at hx
      · exact .inr hx
      · unfold Store.prepended at hx
        split at hx
        · exact List.mem_cons.mp hx
        · exact List.mem_cons.mp (List.mem_of_mem_take hx)

theorem cursor_eventNew :
    (s.store.eventNew e).nextCursor = s.store.nextCursor ∨
      ∃ x ∈ e :: s.store.items, (s.store.eventNew e).nextCursor = x.seq := by
  unfold Store.eventNew
  split
  · exact .inl rfl
  · split
    · exact .inl rfl
    · split
      · exact .inl rfl
      · unfold Store.prepended
        split
        · exact .inl rfl
        · unfold Store.cursorAt
          dsimp only
          split
          · rename_i last hlast
            split
            · exact .inl rfl
            · exact .inr ⟨last, List.mem_of_mem_take (List.mem_of_getLast? hlast), rfl⟩
          · exact .inl rfl

theorem kept_message (h : s.Kept) (hok : s.Timely .message) (ht : s.step .message = some t) :
    t.Kept := by
  simp only [step] at ht
  split at ht
  · cases ht
  · rename_i e messages hmessages
    obtain rfl := Option.some.inj ht
    have he : e ∈ s.rows := h.sent e (hmessages ▸ List.mem_cons_self)
    have hitems : ∀ x ∈ e :: s.store.items, x.seq < s.journal.db.nextSeq := by
      intro x hx
      rcases List.mem_cons.mp hx with rfl | hx
      · exact lt_nextSeq he
      · exact h.items x hx
    refine
      { sorted := (List.pairwise_cons.mp (hmessages ▸ h.sorted)).2
        sent := fun x hx => h.sent x (hmessages ▸ List.mem_cons_of_mem _ hx)
        items := fun x hx => hitems x (List.mem_cons.mpr (mem_eventNew hx))
        cursor := ?_
        calls := fun c hc => (h.calls c hc).mono le_rfl rfl
        last := h.last
        window := fun f hf => ?_ }
    · rcases cursor_eventNew (s := s) (e := e) with hsame | ⟨x, hx, hcursor⟩
      · exact hsame.trans_lt h.cursor
      · exact hcursor.trans_lt (hitems x hx)
    · obtain ⟨lo, hi, hspans⟩ := h.window f hf
      exact hspans.eventNew hmessages h.sorted he (hok e (by rw [hmessages]; rfl) f hf)

theorem called_asks (h : s.Kept) {more : Bool} {filter : Filter} {cursor : Nat}
    (hmore : more = true ↔ cursor ≠ 0) (hcursor : cursor ≤ s.journal.db.nextSeq)
    (hc : c ∈ (s.asks more filter cursor).calls) : (s.asks more filter cursor).Called c := by
  rcases List.mem_append.mp hc with hc | hc
  · exact (h.calls c hc).mono (Nat.le_succ _) rfl
  · rw [List.mem_singleton.mp hc]
    exact
      { id := Nat.lt_succ_self _
        cursor := hcursor
        more := hmore
        answered := fun _ _ ha => by cases ha }

theorem kept_load (h : s.Kept) {filter : Filter} (ht : s.step (.load filter) = some t) :
    t.Kept := by
  obtain rfl := Option.some.inj ht
  refine
    { sorted := h.sorted
      sent := h.sent
      items := h.items
      cursor := h.cursor
      calls := fun c hc => (called_asks h (by simp) (Nat.zero_le _) hc).mono le_rfl rfl
      last := fun id f hlast => ?_
      window := fun f hf => ?_ }
  · obtain ⟨rfl, rfl⟩ := Prod.mk.inj (Option.some.inj hlast)
    refine ⟨Nat.lt_succ_self _, fun c hc hid => ?_⟩
    rcases List.mem_append.mp hc with hc | hc
    · exact absurd hid (h.calls c hc).id.ne
    · rw [List.mem_singleton.mp hc]
  · -- it is not answered yet
    obtain ⟨id, hlast, hnot⟩ := shown_eq_some.mp hf
    obtain ⟨rfl, -⟩ := Prod.mk.inj (Option.some.inj hlast)
    exact absurd (List.mem_map_of_mem (List.mem_append_right _ (List.mem_singleton_self _))) hnot

theorem kept_loadMore (h : s.Kept) (ht : s.step .loadMore = some t) : t.Kept := by
  simp only [step] at ht
  split at ht
  · obtain rfl := Option.some.inj ht
    exact h
  · rename_i hguard
    obtain rfl := Option.some.inj ht
    rw [not_or] at hguard
    refine
      { sorted := h.sorted
        sent := h.sent
        items := h.items
        cursor := h.cursor
        calls := fun c hc => (called_asks h (by simp [hguard.1]) h.cursor.le hc).mono le_rfl rfl
        last := fun id f hlast => ?_
        window := fun f hf => ?_ }
    · obtain ⟨hid, hmore⟩ := h.last id f hlast
      refine ⟨hid.trans (Nat.lt_succ_self _), fun c hc heq => ?_⟩
      rcases List.mem_append.mp hc with hc | hc
      · exact hmore c hc heq
      · obtain rfl := List.mem_singleton.mp hc
        exact absurd heq hid.ne'
    · obtain ⟨id, hlast, hnot⟩ := shown_eq_some.mp hf
      have hshown : s.shown = some f := shown_eq_some.mpr ⟨id, hlast, fun hmem => hnot (by
        obtain ⟨c, hc, heq⟩ := List.mem_map.mp hmem
        exact List.mem_map.mpr ⟨c, List.mem_append_left _ hc, heq⟩)⟩
      obtain ⟨lo, hi, hspans⟩ := h.window f hshown
      exact ⟨lo, hi, hspans.same rfl rfl rfl rfl rfl⟩

variable {id : Nat}

theorem mem_of_call (h : s.call id = some c) : c ∈ s.calls ∧ c.id = id :=
  ⟨List.mem_of_find?_eq_some h, by simpa using List.find?_some h⟩

theorem ids_answers (s : State) (id : Nat) :
    (s.answers id).calls.map Call.id = s.calls.map Call.id := by
  unfold answers
  rw [List.map_map]
  refine List.map_congr_left fun c _ => ?_
  dsimp only [Function.comp]
  split <;> rfl

theorem called_answers (h : s.Kept) (hc : c ∈ (s.answers id).calls) :
    (s.answers id).Called c := by
  obtain ⟨c, hold, rfl⟩ := List.mem_map.mp hc
  have hcalled := h.calls c hold
  split
  · have hpos := s.journal.db.nextSeq_pos
    have hcursor := hcalled.cursor
    refine
      { id := hcalled.id
        cursor := hcursor
        more := hcalled.more
        answered := fun page newest ha => ?_ }
    obtain ⟨rfl, rfl⟩ := Prod.mk.inj (Option.some.inj ha)
    refine
      { below := ?_
        cursor := ?_
        page := ?_ }
    · show s.journal.db.nextSeq - 1 < s.journal.db.nextSeq
      omega
    · show c.cursor ≤ s.journal.db.nextSeq - 1 + 1
      omega
    · show queryEvents s.rows _ = queryEvents (s.rows.filter _) _
      rw [List.filter_eq_self.mpr fun e he => ?_]
      have hlt := lt_nextSeq he
      exact decide_eq_true (by omega)
  · exact hcalled.mono le_rfl rfl

theorem kept_query (h : s.Kept) (ht : s.step (.query id) = some t) : t.Kept := by
  simp only [step] at ht
  split at ht
  · obtain rfl := Option.some.inj ht
    refine
      { sorted := h.sorted
        sent := h.sent
        items := h.items
        cursor := h.cursor
        calls := fun c hc => called_answers h hc
        last := fun i f hlast => ?_
        window := fun f hf => ?_ }
    · obtain ⟨hid, hmore⟩ := h.last i f hlast
      refine ⟨hid, fun c hc heq => ?_⟩
      obtain ⟨c, hold, rfl⟩ := List.mem_map.mp hc
      have hc := hmore c hold
      split at heq <;> split <;> exact hc heq
    · obtain ⟨i, hlast, hnot⟩ := shown_eq_some.mp hf
      rw [ids_answers] at hnot
      obtain ⟨lo, hi, hspans⟩ := h.window f (shown_eq_some.mpr ⟨i, hlast, hnot⟩)
      exact ⟨lo, hi, hspans.same rfl rfl rfl rfl rfl⟩
  · cases ht

theorem mem_drop (hc : c ∈ (s.drop id).calls) : c ∈ s.calls :=
  List.mem_of_mem_filter hc

/-- When a call is over that is not the last `load`, that one was answered before. -/
theorem shown_of_drop (hf : (s.drop id).shown = some f) (hother : ∀ f, s.last ≠ some (id, f)) :
    s.shown = some f := by
  obtain ⟨i, hlast, hnot⟩ := shown_eq_some.mp hf
  refine shown_eq_some.mpr ⟨i, hlast, fun hmem => hnot ?_⟩
  obtain ⟨c, hc, rfl⟩ := List.mem_map.mp hmem
  have hne : c.id ≠ id := by
    rintro rfl
    exact hother f hlast
  exact List.mem_map_of_mem (List.mem_filter.mpr ⟨hc, by simpa using hne⟩)

theorem mem_appended {x : Event} (hx : x ∈ (s.store.appended page).items) :
    x ∈ s.store.items ∨ x ∈ page.items :=
  List.mem_append.mp ((dedupeFrom_sublist _).subset hx)

theorem Answered.below_page (h : s.Answered c page newest) :
    (∀ x ∈ page.items, x.seq < s.journal.db.nextSeq) ∧ page.nextCursor < s.journal.db.nextSeq := by
  have hpage := h.page
  subst hpage
  have hitems : ∀ x ∈ (queryEvents (s.rows.filter fun e => decide (e.seq ≤ newest))
      { c.filter with beforeSeq := c.cursor }).items, x.seq < s.journal.db.nextSeq := by
    intro x hx
    obtain ⟨row, hrow, rfl⟩ := mem_queryEvents hx
    exact s.journal.db.below row (List.mem_of_mem_filter hrow)
  refine ⟨hitems, ?_⟩
  rcases nextCursor_queryEvents with hzero | ⟨x, hx, hseq⟩
  · rw [hzero]
    exact s.journal.db.nextSeq_pos
  · rw [← hseq]
    exact hitems x hx

theorem kept_answer (h : s.Kept) (hok : s.Timely (.answer id)) (ht : s.step (.answer id) = some t) :
    t.Kept := by
  simp only [step] at ht
  split at ht
  · rename_i i more filter cursor page newest hcall
    obtain rfl := Option.some.inj ht
    obtain ⟨hmem, rfl⟩ := mem_of_call hcall
    have hcalled := h.calls _ hmem
    have ha := hcalled.answered page newest rfl
    have hpage := ha.below_page
    have hok := hok _ hcall _ rfl
    refine
      { sorted := h.sorted
        sent := h.sent
        items := fun x hx => ?_
        cursor := ?_
        calls := fun c hc => (h.calls c (mem_drop hc)).mono le_rfl rfl
        last := fun i f hlast => ⟨(h.last i f hlast).1, fun c hc => (h.last i f hlast).2 c (mem_drop hc)⟩
        window := fun f hf => ?_ }
    · cases more with
      | true => exact (mem_appended hx).elim (h.items x) (hpage.1 x)
      | false => exact hpage.1 x hx
    · cases more <;> exact hpage.2
    · obtain ⟨hfilter, hplace⟩ := hok f hf
      obtain rfl : filter = f := hfilter
      cases more with
      | true =>
          -- the last `load` has been answered, and is not this call
          have hother : ∀ f, s.last ≠ some (i, f) := fun f hlast => by
            cases (h.last i f hlast).2 _ hmem rfl
          obtain ⟨lo, hi, hspans⟩ := h.window filter (shown_of_drop hf hother)
          obtain ⟨lo, hspans⟩ := hspans.appended ha (hcalled.more.mp rfl) rfl hplace
          exact ⟨lo, hi, hspans.same rfl rfl rfl rfl rfl⟩
      | false =>
          have hcursor : cursor = 0 := by
            by_contra hne
            cases hcalled.more.mpr hne
          have hspans := ha.loaded hcursor hplace
          exact ⟨page.nextCursor, newest, hspans.same rfl rfl rfl rfl rfl⟩
  · cases ht

theorem kept_fail (h : s.Kept) {error : String} (hok : s.Timely (.fail id error))
    (ht : s.step (.fail id error) = some t) : t.Kept := by
  simp only [step] at ht
  split at ht
  · obtain rfl := Option.some.inj ht
    refine
      { sorted := h.sorted
        sent := h.sent
        items := h.items
        cursor := h.cursor
        calls := fun c hc => (h.calls c (mem_drop hc)).mono le_rfl rfl
        last := fun i f hlast => ⟨(h.last i f hlast).1, fun c hc => (h.last i f hlast).2 c (mem_drop hc)⟩
        window := fun f hf => ?_ }
    obtain ⟨lo, hi, hspans⟩ := h.window f (hok f hf)
    exact ⟨lo, hi, hspans.same rfl rfl rfl rfl rfl⟩
  · cases ht

theorem kept_step (h : s.Kept) {a : Act} (hok : s.Timely a) (ht : s.step a = some t) : t.Kept := by
  cases a with
  | insert uuid now payload e => exact kept_insert h ht
  | message => exact kept_message h hok ht
  | load filter => exact kept_load h ht
  | loadMore => exact kept_loadMore h ht
  | query id => exact kept_query h ht
  | answer id => exact kept_answer h hok ht
  | fail id error => exact kept_fail h hok ht

/-- Once everything has arrived, what the list spans is the newest there is. -/
theorem Spans.window (h : s.Spans f lo hi) (hmessages : s.messages = []) : s.Window f where
  distinct := by
    rw [map_id_of_key h.items]
    exact nodup_between s f lo hi
  descends := by
    refine List.pairwise_map.mp (?_ : (s.store.items.map Event.seq).Pairwise (· > ·))
    rw [map_seq_of_key h.items]
    exact List.pairwise_map.mpr (descends_between (ascends_rows s) f lo hi)
  newest := by
    have hall : ∀ e ∈ taken f s.rows, e.seq ≤ hi := by
      intro e he
      obtain ⟨hrow, hwhere⟩ := mem_taken.mp he
      by_contra hnew
      have hmem := h.waiting e hrow hwhere (by omega)
      rw [hmessages] at hmem
      cases hmem
    have htaken : between f 0 hi s.rows = taken f s.rows :=
      List.filter_eq_self.mpr fun e he => by simpa using hall e he
    have hsplit : between f 0 hi s.rows = between f lo hi s.rows ++ _ :=
      between_split (ascends_rows s) (Nat.zero_le lo)
    rw [htaken] at hsplit
    refine ⟨(between f lo hi s.rows).length, ?_, fun e he => ?_⟩
    · rw [hsplit, List.take_left' rfl]
      exact h.items
    · rw [hsplit, List.drop_left' rfl] at he
      have hlt := of_decide_eq_true (List.mem_filter.mp he).2
      have hlo := h.cursor
      omega

end State

/-- The window as it opens. -/
def opened (journal : Journal) : State where
  journal := journal

theorem kept_opened (journal : Journal) : (opened journal).Kept where
  sorted := .nil
  sent _ he := by cases he
  items _ he := by cases he
  cursor := journal.db.nextSeq_pos
  calls _ hc := by cases hc
  last _ _ h := by cases h
  window _ h := by cases h

/-- **The list of events is a window of the journal**: where every step is in time, the list of a
settled state is one for the filter of the last `load`. -/
theorem window_of_run {journal : Journal} {acts : List Act} {t : State} {id : Nat} {f : Filter}
    (hrun : Run State.step State.Timely (opened journal) acts t) (hsettled : t.Settled)
    (hlast : t.last = some (id, f)) : t.Window f := by
  have hkept := hrun.invariant (kept_opened journal) fun _ _ _ h hok ht => State.kept_step h hok ht
  have hshown : t.shown = some f :=
    State.shown_eq_some.mpr ⟨id, hlast, by rw [hsettled.2]; exact List.not_mem_nil⟩
  obtain ⟨lo, hi, hspans⟩ := hkept.window f hshown
  exact hspans.window hsettled.1

/-! ## A filter that only SQL knows -/

def Journal.empty : Journal where
  db := DB.empty
  unique := List.nodup_nil

/-- An event that is nothing to worry about. -/
def restarted : Event where
  category := categorySystem
  kind := kindSystemSinkDeadLetter
  severity := "info"
  titleKey := "events.kind.system.sink_dead_letter"

/-- An event is inserted while a `load` is on its way. -/
def insertedMeanwhile : List Act :=
  [.load {}, .query 0, .insert "a" "2025-06-01T00:00:00Z" 0 restarted, .answer 0, .message]

theorem window_of_run_meanwhile :
    ∃ t, Run State.step State.Timely (opened Journal.empty) insertedMeanwhile t ∧
      t.store.items.map key = [(1, "a")] ∧ t.Window {} := by
  have hend : (exec (checked State.step fun s a => decide (s.Timely a)) (opened Journal.empty)
      insertedMeanwhile).map (fun t => (t.messages.map key, t.calls.map Call.id,
        decide (t.last = some (0, {})), t.store.items.map key)) =
      some ([], [], true, [(1, "a")]) := by decide
  obtain ⟨t, ht, hend⟩ := Option.map_eq_some_iff.mp hend
  simp only [Prod.mk.injEq, decide_eq_true_eq, List.map_eq_nil_iff] at hend
  obtain ⟨hmessages, hcalls, hlast, hitems⟩ := hend
  have hrun := run_of_checked (fun _ _ h => of_decide_eq_true h) ht
  exact ⟨t, hrun, hitems, window_of_run hrun ⟨hmessages, hcalls⟩ hlast⟩

/-- An event comes that is below the severity of the filter. -/
def belowSeverity : List Act :=
  [.load { minSeverity := "critical" }, .query 0, .answer 0,
    .insert "a" "2025-06-01T00:00:00Z" 0 restarted, .message]

/-- **An event that SQL does not take is put on the list.** -/
theorem minSeverity_ignored :
    ¬ ∀ (acts : List Act) (t : State) (id : Nat) (f : Filter),
        Run State.step (fun _ _ => True) (opened Journal.empty) acts t → t.Settled →
        t.last = some (id, f) → t.Window f := by
  intro hall
  have hend : (exec State.step (opened Journal.empty) belowSeverity).map (fun t =>
      (decide (t.messages = [] ∧ taken { minSeverity := "critical" } t.rows = []),
        t.calls.map Call.id, decide (t.last = some (0, { minSeverity := "critical" })),
        t.store.items.map key)) = some (true, [], true, [(1, "a")]) := by decide
  obtain ⟨t, ht, hend⟩ := Option.map_eq_some_iff.mp hend
  simp only [Prod.mk.injEq, decide_eq_true_eq, List.map_eq_nil_iff] at hend
  obtain ⟨⟨hmessages, htaken⟩, hcalls, hlast, hitems⟩ := hend
  have hwindow := hall _ t 0 _ (run_of_exec ht) ⟨hmessages, hcalls⟩ hlast
  obtain ⟨n, hnewest, -⟩ := hwindow.newest
  rw [hitems, htaken, List.take_nil] at hnewest
  cases hnewest

end SnmpLens.EventList
