import Mathlib.Data.List.Flatten
import SnmpLens.Polling.Arrived

/-!
# The points of a session

A point is fetched once. It is queued for the table and pushed to the window, so what a session
lists comes from what was loaded and from what was pushed, and the two must not meet. `Tidy` says
which points are where between two steps.
-/

namespace SnmpLens.Polling

open Machine

/-! ## The end of a list -/

theorem rtake_suffix {α : Type} (xs : List α) (n : Nat) : xs.rtake n <:+ xs :=
  List.drop_suffix _ _

theorem length_rtake {α : Type} (xs : List α) (n : Nat) : (xs.rtake n).length = min n xs.length := by
  unfold List.rtake
  rw [List.length_drop]
  omega

/-- The last of what was given and comes is among the last of what is had and comes. -/
theorem rtake_append_suffix {α : Type} {given had : List α} {n : Nat} (new : List α)
    (h : given.rtake n <:+ had) : (given ++ new).rtake n <:+ had ++ new := by
  have hshort : (given ++ new).rtake n <:+ given.rtake n ++ new := by
    refine List.suffix_of_suffix_length_le (rtake_suffix _ n) ?_ ?_
    · exact List.suffix_append_self_iff.mpr (rtake_suffix given n)
    · rw [length_rtake, List.length_append, List.length_append, length_rtake]
      omega
  exact hshort.trans (List.suffix_append_self_iff.mpr h)

/-! ## The rounds of the loops -/

theorem rounds_at {loops : List Loop} {l : Loop} (hl : l ∈ loops)
    (hnumbers : (loops.map Loop.number).Nodup) : ∃ rest,
      (loops.flatMap Loop.round).Perm (l.round ++ rest) ∧
        ∀ f : Loop → Loop, ((loops.map fun l' => if l'.number = l.number then f l' else l').flatMap
          Loop.round).Perm ((f l).round ++ rest) := by
  obtain ⟨before, after, rfl⟩ := List.append_of_mem hl
  have hsame : ∀ (f : Loop → Loop) (ls : List Loop), (∀ l' ∈ ls, l'.number ≠ l.number) →
      (ls.map fun l' => if l'.number = l.number then f l' else l') = ls := by
    intro f ls hne
    conv_rhs => rw [← List.map_id ls]
    exact List.map_congr_left fun l' hin => if_neg (hne l' hin)
  rw [List.map_append, List.map_cons, List.nodup_append] at hnumbers
  obtain ⟨-, hafter, happart⟩ := hnumbers
  have hbefore : ∀ l' ∈ before, l'.number ≠ l.number := fun l' hin =>
    happart _ (List.mem_map_of_mem hin) _ List.mem_cons_self
  have hbehind : ∀ l' ∈ after, l'.number ≠ l.number := fun l' hin heq =>
    (List.nodup_cons.mp hafter).1 (heq ▸ List.mem_map_of_mem hin)
  refine ⟨before.flatMap Loop.round ++ after.flatMap Loop.round, ?_, fun f => ?_⟩
  · rw [List.flatMap_append, List.flatMap_cons]
    exact List.perm_append_comm_assoc _ _ _
  · rw [List.map_append, List.map_cons, hsame f before hbefore, hsame f after hbehind, if_pos rfl,
      List.flatMap_append, List.flatMap_cons]
    exact List.perm_append_comm_assoc _ _ _

namespace Mirror

variable {row : Id → Row} {s t : Mirror} {id i : Id}

/-- Points that were fetched, none twice. -/
def Fetched (s : Mirror) (points : List Point) : Prop :=
  points.Nodup ∧ ∀ p ∈ points, p < s.nextPoint

theorem Fetched.subperm {points fewer : List Point} (h : s.Fetched points)
    (hsub : fewer.Subperm points) : s.Fetched fewer := by
  obtain ⟨l, hperm, hless⟩ := hsub
  exact ⟨hperm.nodup_iff.mp (h.1.sublist hless),
    fun p hp => h.2 p (hless.subset (hperm.mem_iff.mpr hp))⟩

theorem Fetched.later {points : List Point} (h : s.Fetched points)
    (hlater : s.nextPoint ≤ t.nextPoint) : t.Fetched points :=
  ⟨h.1, fun p hp => Nat.lt_of_lt_of_le (h.2 p hp) hlater⟩

/-- The results of a session, of which nothing is yet to arrive. -/
structure Holds (row : Id → Row) (s : Mirror) (e : Session) : Prop where
  fetched : s.Fetched e.results
  apart : ∀ p ∈ e.results, p ∉ s.coming
  since : ∀ points, s.since e.id = some points → points.rtake (row e.id).cap <:+ e.results

/-- The points between two steps. -/
structure Tidy (row : Id → Row) (s : Mirror) : Prop where
  numbers : (s.loops.map Loop.number).Nodup ∧ ∀ l ∈ s.loops, l.number < s.nextLoop
  coming : s.Fetched s.coming
  kept : ∀ id, s.Fetched (s.points id ++ s.queued id)
  loaded : ∀ todo loaded, s.init = .data todo loaded → ∀ l ∈ loaded, s.Fetched l.results
  sent : ∀ points, .data points ∈ s.inbox → s.Fetched points
  holds : ∀ e ∈ s.sessions, s.Holds row e

/-- A session keeps its results. -/
theorem Holds.same {e e' : Session} (h : s.Holds row e) (hid : e'.id = e.id)
    (hresults : e'.results = e.results) (hnext : s.nextPoint ≤ t.nextPoint)
    (hcoming : ∀ p ∈ e.results, p ∈ t.coming → p ∈ s.coming) (hsince : t.since e.id = s.since e.id) :
    t.Holds row e' where
  fetched := hresults ▸ h.fetched.later hnext
  apart p hp hin := h.apart p (hresults ▸ hp) (hcoming p (hresults ▸ hp) hin)
  since points hpoints := by
    rw [hid, hresults]
    rw [hid, hsince] at hpoints
    exact h.since points hpoints

/-- A session is listed without results. -/
theorem Holds.empty {e : Session} (hresults : e.results = [])
    (hsince : ∀ points, s.since e.id = some points → points = []) : s.Holds row e where
  fetched := hresults ▸ ⟨List.nodup_nil, by simp⟩
  apart p hp := by simp [hresults] at hp
  since points hpoints := by
    rw [hsince points hpoints]
    simp

/-- The session was on the list, and has its results from there. -/
def From (s t : Mirror) (e' : Session) : Prop :=
  ∃ e ∈ s.sessions, e'.id = e.id ∧ e'.results = e.results ∧ t.since e.id = s.since e.id

/-- A step that fetches nothing. -/
theorem Tidy.frame (h : s.Tidy row) (hnext : t.nextPoint = s.nextPoint)
    (hnumbers : (t.loops.map Loop.number).Nodup ∧ ∀ l ∈ t.loops, l.number < t.nextLoop)
    (hcoming : t.coming.Subperm s.coming)
    (hkept : ∀ id, (t.points id ++ t.queued id).Subperm (s.points id ++ s.queued id))
    (hloaded : ∀ todo loaded, t.init = .data todo loaded → ∀ l ∈ loaded, s.Fetched l.results)
    (hsent : ∀ points, .data points ∈ t.inbox → s.Fetched points)
    (hholds : ∀ e ∈ t.sessions, From s t e ∨ t.Holds row e) : t.Tidy row where
  numbers := hnumbers
  coming := (h.coming.subperm hcoming).later hnext.ge
  kept id := ((h.kept id).subperm (hkept id)).later hnext.ge
  loaded todo loaded hinit l hl := (hloaded todo loaded hinit l hl).later hnext.ge
  sent points hin := (hsent points hin).later hnext.ge
  holds e' he' := by
    obtain ⟨e, he, hid, hresults, hsince⟩ | hholds := hholds e' he'
    · exact (h.holds e he).same hid hresults hnext.ge (fun _ _ hp => hcoming.subset hp) hsince
    · exact hholds

/-! ## Steps that fetch nothing -/

/-- The loops and the points are the same. -/
theorem Tidy.edits (h : s.Tidy row) (hloops : t.loops = s.loops) (hnextLoop : t.nextLoop = s.nextLoop)
    (hnext : t.nextPoint = s.nextPoint) (hpoints : t.points = s.points)
    (hqueued : t.queued = s.queued) (hcoming : t.coming.Subperm s.coming)
    (hloaded : ∀ todo loaded, t.init = .data todo loaded → ∀ l ∈ loaded, s.Fetched l.results)
    (hsent : ∀ points, .data points ∈ t.inbox → s.Fetched points)
    (hholds : ∀ e ∈ t.sessions, From s t e ∨ t.Holds row e) : t.Tidy row := by
  refine h.frame hnext ?_ hcoming (fun id => ?_) hloaded hsent hholds
  · rw [hloops, hnextLoop]
    exact h.numbers
  · rw [hpoints, hqueued]

/-- The window calls, and edits its list. -/
theorem Tidy.calls (h : s.Tidy row) {sessions : List Session} {calls : List Call}
    (hfrom : ∀ e' ∈ sessions, ∃ e ∈ s.sessions, e'.id = e.id ∧ e'.results = e.results) :
    ({ s with sessions, calls } : Mirror).Tidy row := by
  refine h.edits rfl rfl rfl rfl rfl (List.Subperm.refl _) h.loaded h.sent fun e' he' => ?_
  obtain ⟨e, he, hid, hresults⟩ := hfrom e' he'
  exact .inl ⟨e, he, hid, hresults, rfl⟩

theorem markRunning_results {sessions : List Session} {id : Id} {running : Bool} {e' : Session}
    (h : e' ∈ markRunning sessions id running) :
    ∃ e ∈ sessions, e'.id = e.id ∧ e'.results = e.results := by
  obtain ⟨e, he, rfl⟩ := List.mem_map.mp h
  refine ⟨e, he, ?_⟩
  split <;> exact ⟨rfl, rfl⟩

theorem coming_sends (s : Mirror) (m : Msg) :
    (s.sends m).coming.Perm (m.points ++ s.coming) := by
  unfold coming sends
  rw [List.flatMap_append, List.flatMap_singleton, List.append_assoc]
  exact List.perm_append_comm_assoc _ _ _

/-- Go answers. -/
theorem Tidy.sends (h : s.Tidy row) {m : Msg} (hm : m.points = [])
    (hsent : ∀ points, m = .data points → s.Fetched points) : (s.sends m).Tidy row := by
  have hcoming := coming_sends s m
  rw [hm, List.nil_append] at hcoming
  refine h.edits rfl rfl rfl rfl rfl hcoming.subperm h.loaded (fun points hin => ?_)
    fun e he => .inl ⟨e, he, rfl, rfl, rfl⟩
  obtain hin | hin := List.mem_append.mp hin
  · exact h.sent points hin
  · exact hsent points (List.mem_singleton.mp hin).symm

theorem Tidy.drop (h : s.Tidy row) (c : Call) : (s.drop c).Tidy row :=
  h.calls fun e he => ⟨e, he, rfl, rfl⟩

theorem Tidy.calls_ (h : s.Tidy row) (c : Call) : (s.calls_ c).Tidy row :=
  h.calls fun e he => ⟨e, he, rfl, rfl⟩

/-- The loops change, and no round. -/
theorem Tidy.reloops (h : s.Tidy row) {handle : Id → Option Nat} {loops : List Loop} {nextLoop : Nat}
    (hnumbers : (loops.map Loop.number).Nodup ∧ ∀ l ∈ loops, l.number < nextLoop)
    (hrounds : (loops.flatMap Loop.round).Sublist (s.loops.flatMap Loop.round)) :
    ({ s with handle, loops, nextLoop } : Mirror).Tidy row := by
  have hcoming : ({ s with handle, loops, nextLoop } : Mirror).coming.Subperm s.coming :=
    ((List.Sublist.refl _).append hrounds).subperm
  exact h.frame rfl hnumbers hcoming (fun _ => List.Subperm.refl _) h.loaded h.sent
    fun e he => .inl ⟨e, he, rfl, rfl, rfl⟩

theorem onLoop_numbers (s : Mirror) (n : Nat) {f : Loop → Loop} (hf : ∀ l, (f l).number = l.number) :
    (s.onLoop n f).map Loop.number = s.loops.map Loop.number := by
  unfold onLoop
  rw [List.map_map]
  refine List.map_congr_left fun l _ => ?_
  simp only [Function.comp]
  split
  · exact hf l
  · rfl

theorem Tidy.onLoop (h : s.Tidy row) (n : Nat) {f : Loop → Loop}
    (hf : ∀ l, (f l).number = l.number) :
    ((s.onLoop n f).map Loop.number).Nodup ∧ ∀ l ∈ s.onLoop n f, l.number < s.nextLoop := by
  have hnumbers := onLoop_numbers s n hf
  refine ⟨hnumbers ▸ h.numbers.1, fun l hl => ?_⟩
  have hin : l.number ∈ s.loops.map Loop.number := hnumbers ▸ List.mem_map_of_mem hl
  obtain ⟨l', hl', heq⟩ := List.mem_map.mp hin
  exact heq ▸ h.numbers.2 l' hl'

theorem Tidy.starts (h : s.Tidy row) (i : Id) : (s.starts row i).Tidy row := by
  unfold Mirror.starts
  split
  · exact h
  · split
    · exact h
    · refine h.reloops ⟨?_, fun l hl => ?_⟩ ?_
      · rw [List.map_append]
        refine List.nodup_append_comm.mpr (List.nodup_cons.mpr ⟨fun hin => ?_, h.numbers.1⟩)
        obtain ⟨l, hl, heq⟩ := List.mem_map.mp hin
        exact Nat.lt_irrefl _ (heq ▸ h.numbers.2 l hl)
      · obtain hl | hl := List.mem_append.mp hl
        · exact Nat.lt_succ_of_lt (h.numbers.2 l hl)
        · rw [List.mem_singleton.mp hl]
          exact Nat.lt_succ_self _
      · rw [List.flatMap_append]
        simp

/-- **Go goes on with a call.** -/
theorem Tidy.exec {c : Call} (h : s.Tidy row) (hs : s.step row (.exec c) = some t) :
    t.Tidy row := by
  simp only [step] at hs
  split at hs
  swap
  · cases hs
  replace h := h.drop c
  generalize s.drop c = s at h hs
  cases c with
  | create => cases hs
  | bind => cases hs
  | loadData id => cases hs
  | storing id =>
      obtain rfl := Option.some.inj hs
      exact h.sends rfl (by rintro points ⟨⟩)
  | bound id =>
      obtain rfl := Option.some.inj hs
      exact h.sends rfl (by rintro points ⟨⟩)
  | binding id =>
      obtain rfl := Option.some.inj hs
      exact (h.starts id).calls_ _
  | start id =>
      simp only [Mirror.exec] at hs
      split at hs
      · obtain rfl := Option.some.inj hs
        exact h.starts id
      · cases hs
  | stop id remove =>
      simp only [Mirror.exec] at hs
      split at hs
      · rename_i n hn
        obtain rfl := Option.some.inj hs
        have hrounds : (s.onLoop n fun l => { l with cancelled := true }).flatMap Loop.round =
            s.loops.flatMap Loop.round := by
          unfold Mirror.onLoop
          rw [List.flatMap_map]
          refine List.flatMap_congr fun l _ => ?_
          split <;> rfl
        have hnumbers := h.onLoop n (f := fun l => { l with cancelled := true }) fun _ => rfl
        exact (h.reloops hnumbers (hrounds.symm ▸ List.Sublist.refl _)).calls_ _
      · obtain rfl := Option.some.inj hs
        split
        · exact h.sends rfl (by rintro points ⟨⟩)
        · exact h
  | stopping id remove n =>
      simp only [Mirror.exec] at hs
      split at hs
      · cases hs
      · obtain rfl := Option.some.inj hs
        split
        · exact h.sends rfl (by rintro points ⟨⟩)
        · exact h
  | delete id =>
      obtain rfl := Option.some.inj hs
      refine h.frame rfl h.numbers (List.Subperm.refl _) (fun j => ?_) h.loaded h.sent
        fun e he => .inl ⟨e, he, rfl, rfl, rfl⟩
      change ((if j = id then [] else s.points j) ++ s.queued j).Subperm _
      split
      · exact (List.sublist_append_right _ _).subperm
      · exact List.Subperm.refl _
  | loadSessions =>
      obtain rfl := Option.some.inj hs
      exact h.sends rfl (by rintro points ⟨⟩)
  | running =>
      obtain rfl := Option.some.inj hs
      exact h.sends rfl (by rintro points ⟨⟩)

end Mirror

end SnmpLens.Polling
