import Mathlib.Data.List.Infix
import SnmpLens.Lib.Cursor
import SnmpLens.Notify.Route
import SnmpLens.Storage.Retention

/-!
# Querying the journal

`events.Filter`, and `buildEventWhere` and `QueryEvents` of `pkg/storage/events.go`: the `WHERE` of
a filter as the rows it takes, and a page of these, newest first, with the `beforeSeq` that asks for
the next one.

A text column is compared byte by byte, which for UTF-8 is character by character. `LIKE` is the one
of SQLite. `source`, `oid` and `session_id` are NULL where the event has none, and a comparison with
NULL takes no row.
-/

namespace SnmpLens.EventList

open Events Router Cursor

/-- `events.Filter`. -/
structure Filter where
  categories : List String := []
  kinds : List String := []
  minSeverity : String := ""
  source : String := ""
  oid : String := ""
  sessionID : String := ""
  fromTs : String := ""
  toTs : String := ""
  search : String := ""
  unackedOnly : Bool := false
  /-- Default 100, capped at 500. -/
  limit : Int := 0
  /-- Keyset cursor; 0 is the newest page. -/
  beforeSeq : Nat := 0
deriving DecidableEq

/-- `events.Page`. -/
structure Page where
  items : List Event
  /-- The `beforeSeq` of the next page; 0 is the end. -/
  nextCursor : Nat
  /-- How many rows the filter takes, whatever the page. -/
  total : Nat
deriving DecidableEq

/-! ## The rows a filter takes -/

/-- `LIKE`: `%` is any text, `_` any character, and an ASCII letter matches either case. -/
def like : List Char → List Char → Bool
  | [], text => text.isEmpty
  | p :: pattern, text =>
      if p = '%' then text.tails.any (like pattern)
      else match text with
        | [] => false
        | c :: text => (p == '_' || p.toLower == c.toLower) && like pattern text

/-- A column against a pattern; both end at a NUL character. -/
def columnLike (column : String) (pattern : List Char) : Bool :=
  like (pattern.takeWhile (· ≠ '\x00')) (column.toList.takeWhile (· ≠ '\x00'))

/-- The same of a column that is NULL where the text is empty. -/
def nullableLike (column : String) (pattern : List Char) : Bool :=
  column != "" && columnLike column pattern

def takesCategory (categories : List String) (category : String) : Bool :=
  match categories with
  | [c] => category == c
  | _ =>
      if 1 < categories.length && categories.length < Retention.eventRetention.length then
        categories.contains category
      else true

/-- `buildEventWhere`: whether the row of an event is taken. -/
def buildEventWhere (f : Filter) (e : Event) : Bool :=
  let like := ['%'] ++ f.search.toList ++ ['%']
  takesCategory f.categories e.category
    && (f.kinds.isEmpty || f.kinds.contains e.kind)
    && (f.minSeverity == "" || Notify.parseSeverity f.minSeverity ≤ Notify.parseSeverity e.severity)
    && (f.source == "" || nullableLike e.source (['%'] ++ f.source.toList ++ ['%']))
    && (f.oid == "" || nullableLike e.oid (f.oid.toList ++ ['%']))
    && (f.sessionID == "" || e.sessionID == f.sessionID)
    && (f.fromTs == "" || f.fromTs ≤ e.ts)
    && (f.toTs == "" || e.ts ≤ f.toTs)
    && (f.search == "" || columnLike e.summary like || nullableLike e.source like
      || nullableLike e.oid like)
    && (!f.unackedOnly || !e.acked)

/-! ## A page of them -/

/-- `Severity.String`. -/
def severityName (severity : Nat) : String :=
  if severity = 5 then "critical" else if severity = 4 then "major" else if severity = 3 then "minor"
  else if severity = 2 then "warning" else "info"

/-- `scanEvent` of the row of an event: the severity comes back under its name. -/
def scanEvent (e : Event) : Event :=
  { e with severity := severityName (Notify.parseSeverity e.severity) }

def Filter.pageLimit (f : Filter) : Nat :=
  if f.limit ≤ 0 then 100 else if 500 < f.limit then 500 else f.limit.toNat

/-- The rows a filter takes, newest first. -/
def taken (f : Filter) (rows : List Event) : List Event := rows.reverse.filter (buildEventWhere f)

/-- `QueryEvents`, on the rows of the journal in the order they were inserted. -/
def queryEvents (rows : List Event) (f : Filter) : Page :=
  let below := (taken f rows).filter fun e => f.beforeSeq == 0 || e.seq < f.beforeSeq
  let items := (below.take f.pageLimit).map scanEvent
  { items
    total := (taken f rows).length
    nextCursor :=
      if items.length = f.pageLimit then (items.getLast?.map Event.seq).getD 0 else 0 }

/-! ## What a page holds -/

/-- An event and its row are told by the `seq` and the id. -/
def key (e : Event) : Nat × String := (e.seq, e.id)

@[simp] theorem key_scanEvent (e : Event) : key (scanEvent e) = key e := rfl

theorem map_key_scanEvent (rows : List Event) : (rows.map scanEvent).map key = rows.map key := by
  rw [List.map_map]
  exact List.map_congr_left fun e _ => key_scanEvent e

/-- The rows a filter takes whose `seq` is neither below the first bound nor above the second. -/
def between (f : Filter) (lo hi : Nat) (rows : List Event) : List Event :=
  (taken f rows).filter fun e => lo ≤ e.seq && e.seq ≤ hi

variable {rows : List Event} {f : Filter}

theorem mem_taken {e : Event} :
    e ∈ taken f rows ↔ e ∈ rows ∧ buildEventWhere f e = true := by
  rw [taken, List.mem_filter, List.mem_reverse]

theorem mem_between {lo hi : Nat} {e : Event} :
    e ∈ between f lo hi rows ↔
      (e ∈ rows ∧ buildEventWhere f e = true) ∧ lo ≤ e.seq ∧ e.seq ≤ hi := by
  simp [between, mem_taken]

theorem pageLimit_pos (f : Filter) : 0 < f.pageLimit := by
  unfold Filter.pageLimit
  split
  · decide
  · split
    · decide
    · omega

/-- The rows of a journal, in the order they were inserted. -/
def Ascends (rows : List Event) : Prop := rows.Pairwise fun a b => a.seq < b.seq

theorem descends_taken (h : Ascends rows) (f : Filter) :
    Descends Event.seq (taken f rows) :=
  Descends.filter (List.pairwise_reverse.mpr h) _

theorem descends_between (h : Ascends rows) (f : Filter) (lo hi : Nat) :
    Descends Event.seq (between f lo hi rows) :=
  (descends_taken h f).filter _

/-- The rows a query is about: those below its cursor, if it has one. -/
def Below (cursor top : Nat) : Nat := if cursor = 0 then top else cursor - 1

theorem below_eq {cursor top : Nat} (htop : ∀ e ∈ rows, e.seq ≤ top) :
    (taken f rows).filter (fun e => cursor == 0 || e.seq < cursor) =
      between f 0 (Below cursor top) rows := by
  refine List.filter_congr fun e he => ?_
  have hseq := htop e (mem_taken.mp he).1
  unfold Below
  by_cases hc : cursor = 0
  · simp [hc, hseq]
  · have hiff : e.seq < cursor ↔ e.seq ≤ cursor - 1 := by omega
    simp [hc, hiff]

theorem between_filter {lo hi : Nat} :
    (between f 0 hi rows).filter (fun e => decide (lo ≤ e.seq)) = between f lo hi rows := by
  unfold between
  rw [List.filter_filter]
  refine List.filter_congr fun e _ => ?_
  simp

/-- **A page is what the filter takes from its cursor down to the next one.** -/
theorem queryEvents_items (h : Ascends rows) {cursor top : Nat} (htop : ∀ e ∈ rows, e.seq ≤ top) :
    (queryEvents rows { f with beforeSeq := cursor }).items =
      (between f (queryEvents rows { f with beforeSeq := cursor }).nextCursor
        (Below cursor top) rows).map scanEvent := by
  have hbelow : (taken { f with beforeSeq := cursor } rows).filter
      (fun e => cursor == 0 || e.seq < cursor) = between f 0 (Below cursor top) rows :=
    below_eq htop
  unfold queryEvents
  dsimp only
  rw [hbelow]
  congr 1
  generalize hpage : (between f 0 (Below cursor top) rows).take _ = page
  change (between f 0 (Below cursor top) rows).take f.pageLimit = page at hpage
  rw [List.length_map]
  split
  · rename_i hfull
    -- a page that is full has a last row
    have hne : page ≠ [] := by
      rintro rfl
      exact absurd hfull (pageLimit_pos _).ne
    obtain ⟨e, hlast⟩ := Option.isSome_iff_exists.mp (List.getLast?_isSome.mpr hne)
    rw [List.getLast?_map, hlast]
    subst hpage
    rw [take_of_getLast (descends_between h f _ _) hlast]
    exact between_filter
  · rename_i hshort
    have hlen : (between f 0 (Below cursor top) rows).length ≤ f.pageLimit := by
      change ¬ page.length = f.pageLimit at hshort
      rw [← hpage, List.length_take] at hshort
      omega
    rw [← hpage, List.take_of_length_le hlen]

end SnmpLens.EventList
