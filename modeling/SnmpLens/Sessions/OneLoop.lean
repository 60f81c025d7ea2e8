import SnmpLens.Sessions.Model

/-!
# One poll loop per session

`Start` is a no-op where the map has a handle and `Stop` waits for the loop it ends, so one
call after another is in order. Between two calls nothing is: `Stop` takes the handle off the
map before the loop has ended, `MonitorUpdateConnection` stops and starts without a lock, and
the flag in the row is written apart from the loop. The order is kept in the runs in which
every step finds what it counts on (`one_loop`).
-/

namespace SnmpLens.Sessions

open Utf8 Strings Machine

namespace Call

/-- The loop a call has taken off the map and is not rid of. -/
def ends : Call → Option Nat
  | .cancelling _ i => some i
  | .waiting _ i => some i
  | _ => none

/-- A call is on its way to write that the session has stopped, or to start it again. -/
def pending : Call → Bool
  | .cancelling _ _ => true
  | .waiting _ _ => true
  | .marking active => !active
  | .finding .update => true
  | .loading .update _ _ => true
  | .starting .update _ => true
  | _ => false

end Call

namespace Session

def Active (s : Session) : Prop := ∃ r, s.row = some r ∧ r.active = true

/-- The goroutine is there, polling or not. -/
def Alive (s : Session) (i : Nat) : Prop := ∃ l, s.loops[i]? = some l ∧ l.ended = false

/-- **No two loops are in a round together, and when every call has returned there is a loop if
and only if the row says so.** -/
structure OneLoop (s : Session) : Prop where
  alone : ∀ (i j : Nat) (l m : Loop), s.loops[i]? = some l → s.loops[j]? = some m →
    l.polling = true → m.polling = true → i = j
  record : s.Quiet → s.created = false → ((∃ i, s.Alive i) ↔ s.Active)

/-- The storage succeeds, and every step finds what it counts on. A loop is started where none
is left and the row is there, and by `MonitorUpdateConnection` only if it still says active; the
flag is written for what the map then says, and a row is deleted when nothing polls. -/
def Orderly (s : Session) : Act → Prop
  | .go p fails =>
      match s.calls p with
      | .finding _ => fails = false
      | .starting w _ => s.running = none → (∀ l ∈ s.loops, l.ended = true) ∧
          ∃ r, s.row = some r ∧ (w = .update → r.active = true)
      | .marking active => fails = false ∧ s.running.isSome = active
      | .deleting => s.running = none
      | _ => True
  | _ => True

/-! ## Whose a loop is -/

/-- A loop is the map's or is being stopped, and there is one at most. -/
structure Owned (s : Session) : Prop where
  running : ∀ i, s.running = some i → ∃ l, s.loops[i]? = some l ∧ l.cancelled = false ∧ l.ended = false
  alive : ∀ i, s.Alive i → s.running = some i ∨ ∃ p, (s.calls p).ends = some i
  ending : ∀ p i, (s.calls p).ends = some i → i < s.loops.length ∧ s.running ≠ some i
  alone : ∀ i j, s.Alive i → s.Alive j → i = j
  polling : ∀ (i : Nat) (l : Loop), s.loops[i]? = some l → l.polling = true → l.ended = false

variable {s t : Session} {p : Nat} {c : Call}

/-- The rows and the credentials say nothing about it. -/
theorem Owned.frame (h : Owned s) (hrunning : t.running = s.running) (hloops : t.loops = s.loops)
    (hcalls : t.calls = s.calls) : Owned t := by
  obtain ⟨row, present, secrets, running, loops, calls, created, reported, halved⟩ := t
  simp only at hrunning hloops hcalls
  subst hrunning hloops hcalls
  exact ⟨h.running, h.alive, h.ending, h.alone, h.polling⟩

theorem Owned.at_ (h : Owned s) (hleft : ∀ i, (s.calls p).ends = some i → c.ends = some i ∨ ¬ s.Alive i)
    (hc : ∀ i, c.ends = some i → i < s.loops.length ∧ s.running ≠ some i) : Owned (s.at_ p c) where
  running := h.running
  alive := fun i hi => (h.alive i hi).imp id fun hq =>
    exists_at (P := fun c => c.ends = some i) hq fun hp => (hleft i hp).resolve_right (· hi)
  ending := forall_at (P := fun c => ∀ i, c.ends = some i → i < s.loops.length ∧ s.running ≠ some i)
    h.ending hc
  alone := h.alone
  polling := h.polling

theorem Owned.at_idle (h : Owned s) (hleft : (s.calls p).ends = none) (hc : c.ends = none) :
    Owned (s.at_ p c) :=
  h.at_ (fun i hi => by rw [hleft] at hi; cases hi) fun i hi => by rw [hc] at hi; cases hi

theorem alive_modify {i : Nat} {f : Loop → Loop}
    (hf : ∀ l, (f l).ended = false → l.ended = false) {j : Nat}
    (h : ({ s with loops := s.loops.modify i f } : Session).Alive j) : s.Alive j := by
  obtain ⟨l, hl, hended⟩ := h
  obtain ⟨m, hm, rfl⟩ := getElem?_modify_loop hl
  refine ⟨m, hm, ?_⟩
  by_cases hij : j = i
  · rw [if_pos hij] at hended
    exact hf m hended
  · rw [if_neg hij] at hended
    exact hended

/-- What a move of a loop has to keep for the ownership to stay. -/
theorem Owned.modify (h : Owned s) {i : Nat} {f : Loop → Loop}
    (hended : ∀ l, (f l).ended = false → l.ended = false)
    (hpolling : ∀ l, s.loops[i]? = some l → (f l).polling = true → (f l).ended = false)
    (hrunning : ∀ l, s.running = some i → s.loops[i]? = some l → l.cancelled = false →
      l.ended = false → (f l).cancelled = false ∧ (f l).ended = false) :
    Owned { s with loops := s.loops.modify i f } where
  running := by
    intro j hj
    obtain ⟨l, hl, hcancelled, hend⟩ := h.running j hj
    by_cases hij : i = j
    · subst hij
      refine ⟨f l, ?_, hrunning l hj hl hcancelled hend⟩
      simp only [List.getElem?_modify, hl]
      simp
    · refine ⟨l, ?_, hcancelled, hend⟩
      simp only [List.getElem?_modify, hl]
      simp [hij]
  alive := fun j hj => h.alive j (alive_modify hended hj)
  ending := by
    intro q j hq
    rw [List.length_modify]
    exact h.ending q j hq
  alone := fun j k hj hk => h.alone j k (alive_modify hended hj) (alive_modify hended hk)
  polling := by
    intro j l hl hpoll
    obtain ⟨m, hm, rfl⟩ := getElem?_modify_loop hl
    by_cases hij : j = i
    · subst hij
      rw [if_pos rfl] at hpoll ⊢
      exact hpolling m hm hpoll
    · rw [if_neg hij] at hpoll ⊢
      exact h.polling j m hm hpoll

/-- `Stop` takes the handle off the map: the loop is the call's now. -/
theorem Owned.remove (h : Owned s) {i : Nat} (hrunning : s.running = some i) (w : Within)
    (hleft : (s.calls p).ends = none) :
    Owned { s.at_ p (.cancelling w i) with running := none } where
  running := fun j hj => by cases hj
  alive := by
    intro j hj
    refine .inr ?_
    rcases h.alive j hj with hj' | hq
    · obtain rfl : i = j := Option.some.inj (hrunning.symm.trans hj')
      exact ⟨p, by simp [Session.at_, Call.ends]⟩
    · exact exists_at (P := fun c => c.ends = some j) hq fun hp => by rw [hleft] at hp; cases hp
  ending := by
    refine forall_at (P := fun c => ∀ j, c.ends = some j → j < s.loops.length ∧ none ≠ some j)
      (fun q j hq => ⟨(h.ending q j hq).1, by simp⟩) fun j hj => ⟨?_, by simp⟩
    obtain rfl : i = j := Option.some.inj hj
    obtain ⟨l, hl, _⟩ := h.running i hrunning
    exact (List.getElem?_eq_some_iff.mp hl).1
  alone := h.alone
  polling := h.polling

/-- `Start` makes a loop where none is left. -/
theorem Owned.spawn (h : Owned s) (hend : ∀ l ∈ s.loops, l.ended = true) (fetch : Fetch)
    (hc : c.ends = none) :
    Owned { s.at_ p c with
      running := some s.loops.length
      loops := s.loops ++ [{ fetch }]
      created := false } := by
  have hnone : ∀ i, ¬ s.Alive i := by
    rintro i ⟨l, hl, hended⟩
    rw [hend l (List.mem_of_getElem? hl)] at hended
    cases hended
  have hnew : ∀ (i : Nat) (l : Loop), (s.loops ++ [⟨fetch, false, false, false⟩])[i]? = some l →
      s.loops[i]? = some l ∨ i = s.loops.length ∧ l = ⟨fetch, false, false, false⟩ := by
    intro i l hl
    rcases Nat.lt_or_ge i s.loops.length with hlt | hge
    · rw [List.getElem?_append_left hlt] at hl
      exact .inl hl
    · rw [List.getElem?_append_right hge] at hl
      have hi : i - s.loops.length = 0 := by
        have := (List.getElem?_eq_some_iff.mp hl).1
        simpa using this
      rw [hi] at hl
      exact .inr ⟨by omega, (Option.some.inj hl).symm⟩
  have honly : ∀ (i : Nat) (l : Loop), (s.loops ++ [⟨fetch, false, false, false⟩])[i]? = some l → l.ended = false →
      i = s.loops.length := by
    intro i l hl hended
    rcases hnew i l hl with hl' | ⟨hi, _⟩
    · exact absurd ⟨l, hl', hended⟩ (hnone i)
    · exact hi
  refine ⟨?_, ?_, ?_, ?_, ?_⟩
  · intro i hi
    obtain rfl := Option.some.inj hi
    exact ⟨⟨fetch, false, false, false⟩, by simp, rfl, rfl⟩
  · rintro i ⟨l, hl, hended⟩
    exact .inl (by rw [honly i l hl hended])
  · have hother : ∀ q, ∀ j, ((s.at_ p c).calls q).ends = some j → j < s.loops.length :=
      forall_at (P := fun c => ∀ j, c.ends = some j → j < s.loops.length)
        (fun q j hq => (h.ending q j hq).1) fun j hj => by rw [hc] at hj; cases hj
    intro q j hq
    have hlt := hother q j hq
    refine ⟨by rw [List.length_append]; omega, fun hj => ?_⟩
    have := Option.some.inj hj
    omega
  · rintro i j ⟨l, hl, hi⟩ ⟨m, hm, hj⟩
    rw [honly i l hl hi, honly j m hm hj]
  · intro i l hl hpoll
    rcases hnew i l hl with hl' | ⟨_, rfl⟩
    · exact h.polling i l hl' hpoll
    · rfl

@[simp] theorem ends_saved (w : Within) : w.saved.ends = none := by cases w <;> rfl

@[simp] theorem ends_stopped (w : Within) : w.stopped.ends = none := by cases w <;> rfl

@[simp] theorem ends_started (w : Within) : w.started.ends = none := by cases w <;> rfl

/-- A step that does nothing with the map and with the loops. -/
theorem Owned.elsewhere (h : Owned s) (hleft : (s.calls p).ends = none) (hc : c.ends = none)
    (hrunning : t.running = s.running) (hloops : t.loops = s.loops)
    (hcalls : t.calls = (s.at_ p c).calls) : Owned t :=
  (h.at_idle hleft hc).frame hrunning hloops hcalls

theorem owned_go (h : Owned s) {fails : Bool} (hok : s.Orderly (.go p fails))
    (hs : s.go p fails = some t) : Owned t := by
  unfold go at hs
  unfold Orderly at hok
  cases hcall : s.calls p <;> rw [hcall] at hs <;> simp only [hcall] at hok <;> simp only at hs
  case idle => cases hs
  case creating version conn =>
    have hleft : (s.calls p).ends = none := by rw [hcall]; rfl
    split at hs
    · obtain rfl := Option.some.inj hs
      exact h.at_idle hleft rfl
    · obtain rfl := Option.some.inj hs
      exact h.elsewhere hleft rfl rfl rfl rfl
  case replacing version conn =>
    have hleft : (s.calls p).ends = none := by rw [hcall]; rfl
    split at hs
    · obtain rfl := Option.some.inj hs
      exact h.at_idle hleft rfl
    · split at hs
      · obtain rfl := Option.some.inj hs
        exact h.at_idle hleft rfl
      · obtain rfl := Option.some.inj hs
        exact h.elsewhere hleft rfl rfl rfl rfl
  case saving w kept version conn =>
    obtain rfl := Option.some.inj hs
    exact h.elsewhere (by rw [hcall]; rfl) (ends_saved w) rfl rfl rfl
  case checking =>
    split at hs <;> obtain rfl := Option.some.inj hs <;> exact h.at_idle (by rw [hcall]; rfl) rfl
  case removing w =>
    have hleft : (s.calls p).ends = none := by rw [hcall]; rfl
    split at hs
    · rename_i i hrunning
      obtain rfl := Option.some.inj hs
      exact h.remove hrunning w hleft
    · obtain rfl := Option.some.inj hs
      exact h.at_idle hleft (ends_stopped w)
  case cancelling w i =>
    obtain rfl := Option.some.inj hs
    have hends : (s.calls p).ends = some i := by rw [hcall]; rfl
    obtain ⟨hlt, hne⟩ := h.ending p i hends
    have hwait : Owned (s.at_ p (.waiting w i)) := h.at_
      (fun j hj => .inl (hends.symm.trans hj))
      fun j hj => by
        obtain rfl : i = j := Option.some.inj hj
        exact ⟨hlt, hne⟩
    -- the loop that is cancelled is not the one on the map
    exact hwait.modify (fun l hl => hl) (fun l hl hpoll => h.polling i l hl hpoll)
      fun l hi => absurd hi hne
  case waiting w i =>
    split at hs
    · rename_i hall
      obtain rfl := Option.some.inj hs
      refine h.at_ (fun j hj => ?_) fun j hj => by rw [ends_stopped w] at hj; cases hj
      rw [hcall] at hj
      obtain rfl : i = j := Option.some.inj hj
      refine .inr ?_
      rintro ⟨l, hl, hended⟩
      rw [hl] at hall
      have hdone : l.ended = true := hall
      rw [hdone] at hended
      cases hended
    · cases hs
  case finding w =>
    have hleft : (s.calls p).ends = none := by rw [hcall]; rfl
    split at hs
    · obtain rfl := Option.some.inj hs
      exact h.at_idle hleft rfl
    · split at hs <;> obtain rfl := Option.some.inj hs <;> exact h.at_idle hleft rfl
  case loading w version conn =>
    obtain rfl := Option.some.inj hs
    exact h.at_idle (by rw [hcall]; rfl) rfl
  case starting w fetch =>
    have hleft : (s.calls p).ends = none := by rw [hcall]; rfl
    split at hs
    · obtain rfl := Option.some.inj hs
      exact h.at_idle hleft (ends_started w)
    · rename_i hrunning
      obtain rfl := Option.some.inj hs
      exact h.spawn (hok hrunning).1 fetch (ends_started w)
  case forgetting =>
    have hleft : (s.calls p).ends = none := by rw [hcall]; rfl
    split at hs
    · obtain rfl := Option.some.inj hs
      exact h.at_idle hleft rfl
    · split at hs <;> obtain rfl := Option.some.inj hs <;> exact h.elsewhere hleft rfl rfl rfl rfl
  case marking | deleting =>
    have hleft : (s.calls p).ends = none := by rw [hcall]; rfl
    split at hs <;> obtain rfl := Option.some.inj hs <;> exact h.elsewhere hleft rfl rfl rfl rfl

/-! ## What the row says -/

/-- The row and the map say the same, unless a call is on its way to put that right. -/
structure Recorded (s : Session) : Prop where
  row : s.row = none → s.running = none
  active : ∀ r, s.row = some r → s.running.isSome → r.active = false →
    ∃ p, s.calls p = .marking true
  idle : ∀ r, s.row = some r → s.running = none → r.active = true →
    s.created = true ∨ ∃ p, (s.calls p).pending = true

theorem Recorded.at_ (h : Recorded s) (hmark : s.calls p ≠ .marking true ∨ c = .marking true)
    (hpending : (s.calls p).pending = true → c.pending = true) : Recorded (s.at_ p c) where
  row := h.row
  active := fun r hr hrunning hactive =>
    exists_at (P := fun c => c = .marking true) (h.active r hr hrunning hactive) fun hp =>
      hmark.resolve_left (· hp)
  idle := fun r hr hrunning hactive => (h.idle r hr hrunning hactive).imp id fun hq =>
    exists_at (P := fun c => c.pending = true) hq hpending

/-- A call goes on that is not marking the session and has nothing pending. -/
theorem Recorded.moves (h : Recorded s) {c' : Call} (hcall : s.calls p = c')
    (hmark : c' ≠ .marking true) (hpending : c'.pending = false) : Recorded (s.at_ p c) :=
  h.at_ (.inl (hcall ▸ hmark)) fun hp => by
    rw [hcall, hpending] at hp
    cases hp

/-- The credentials and the loops say nothing about it, nor does the connection in the row. -/
theorem Recorded.frame (h : Recorded s) (hrow : t.row.map Row.active = s.row.map Row.active)
    (hrunning : t.running = s.running) (hcalls : t.calls = s.calls) (hcreated : t.created = s.created) :
    Recorded t := by
  have hmap : ∀ r, t.row = some r → ∃ r', s.row = some r' ∧ r'.active = r.active := by
    intro r hr
    rw [hr] at hrow
    cases hs : s.row with
    | none =>
        rw [hs] at hrow
        cases hrow
    | some r' =>
        rw [hs] at hrow
        exact ⟨r', rfl, (Option.some.inj hrow).symm⟩
  refine ⟨fun hr => ?_, fun r hr hrun hactive => ?_, fun r hr hrun hactive => ?_⟩
  · rw [hrunning]
    refine h.row ?_
    rw [hr] at hrow
    cases hs : s.row with
    | none => rfl
    | some r' =>
        rw [hs] at hrow
        cases hrow
  · obtain ⟨r', hr', hsame⟩ := hmap r hr
    rw [hcalls]
    rw [hrunning] at hrun
    exact h.active r' hr' hrun (hsame.trans hactive)
  · obtain ⟨r', hr', hsame⟩ := hmap r hr
    rw [hcalls, hcreated]
    rw [hrunning] at hrun
    exact h.idle r' hr' hrun (hsame.trans hactive)

theorem recorded_of_accord (hrow : s.row = none → s.running = none)
    (haccord : ∀ r, s.row = some r → s.running.isSome = r.active) : Recorded s where
  row := hrow
  active := fun r hr hrunning hactive => by
    rw [haccord r hr, hactive] at hrunning
    cases hrunning
  idle := fun r hr hrunning hactive => by
    have := haccord r hr
    rw [hrunning, hactive] at this
    cases this

theorem recorded_go (h : Recorded s) {fails : Bool} (hok : s.Orderly (.go p fails))
    (hs : s.go p fails = some t) : Recorded t := by
  unfold go at hs
  unfold Orderly at hok
  cases hcall : s.calls p <;> rw [hcall] at hs <;> simp only [hcall] at hok <;> simp only at hs
  case idle => cases hs
  case creating version conn =>
    split at hs
    · obtain rfl := Option.some.inj hs
      exact h.moves hcall (by simp) rfl
    · rename_i hnew
      obtain rfl := Option.some.inj hs
      have hrow : s.row = none := by
        cases hr : s.row with
        | none => rfl
        | some r => exact absurd (.inr (by rw [hr]; rfl)) hnew
      have hrunning := h.row hrow
      refine ⟨fun _ => hrunning, fun r hr hrun => ?_, fun r hr hrun hactive => .inl rfl⟩
      have : s.running.isSome = true := hrun
      rw [hrunning] at this
      cases this
  case replacing version conn =>
    split at hs
    · obtain rfl := Option.some.inj hs
      exact h.moves hcall (by simp) rfl
    · split at hs
      · obtain rfl := Option.some.inj hs
        exact h.moves hcall (by simp) rfl
      · rename_i r hr
        obtain rfl := Option.some.inj hs
        have hon := h.moves (c := .saving .update true (coalesce version r.snmpVersion) conn) hcall
          (by simp) rfl
        exact hon.frame (by simp [Session.at_, hr]) rfl rfl rfl
  case saving w kept version conn =>
    obtain rfl := Option.some.inj hs
    have hon := h.moves (c := w.saved) hcall (by simp) rfl
    exact hon.frame rfl rfl rfl rfl
  case checking =>
    split at hs <;> obtain rfl := Option.some.inj hs <;>
      exact h.moves hcall (by simp) rfl
  case removing w =>
    split at hs
    · obtain rfl := Option.some.inj hs
      refine ⟨fun _ => rfl, fun r hr hrunning => ?_, fun r hr hrunning hactive => .inr ⟨p, ?_⟩⟩
      · cases hrunning
      · simp [Session.at_, Call.pending]
    · obtain rfl := Option.some.inj hs
      exact h.moves hcall (by simp) rfl
  case cancelling w i =>
    obtain rfl := Option.some.inj hs
    have hon := h.at_ (p := p) (c := .waiting w i) (.inl (by simp [hcall])) fun _ => rfl
    exact hon.frame rfl rfl rfl rfl
  case waiting w i =>
    split at hs
    · obtain rfl := Option.some.inj hs
      exact h.at_ (.inl (by simp [hcall])) fun _ => by cases w <;> rfl
    · cases hs
  case finding w =>
    rw [if_neg (by simp [hok])] at hs
    split at hs
    · -- the row has gone: there is nothing to put right
      rename_i hrow
      obtain rfl := Option.some.inj hs
      refine recorded_of_accord (fun _ => h.row hrow) fun r hr => ?_
      rw [show s.row = some r from hr] at hrow
      cases hrow
    · obtain rfl := Option.some.inj hs
      exact h.at_ (.inl (by simp [hcall])) (by rw [hcall]; cases w <;> exact id)
  case loading w version conn =>
    obtain rfl := Option.some.inj hs
    exact h.at_ (.inl (by simp [hcall])) (by rw [hcall]; cases w <;> exact id)
  case starting w fetch =>
    split at hs
    · rename_i i hrunning
      obtain rfl := Option.some.inj hs
      refine ⟨h.row, fun r hr hrun hactive => ?_, fun r hr hrun => ?_⟩
      · exact exists_at (P := fun c => c = .marking true) (h.active r hr hrun hactive)
          fun hp => by rw [hcall] at hp; cases hp
      · rw [show s.running = none from hrun] at hrunning
        cases hrunning
    · rename_i hrunning
      obtain rfl := Option.some.inj hs
      obtain ⟨_, r, hrow, hrestart⟩ := hok hrunning
      refine ⟨fun hr => ?_, fun r' hr _ hactive => ⟨p, ?_⟩, fun _ _ hrun => by cases hrun⟩
      · rw [show s.row = none from hr] at hrow
        cases hrow
      · -- a loop is started for a row that says stopped by `MonitorStart` only
        obtain rfl : r = r' := Option.some.inj (hrow.symm.trans hr)
        cases w with
        | own => simp [Session.at_, Within.started]
        | update =>
            rw [hrestart rfl] at hactive
            cases hactive
  case marking active =>
    obtain ⟨hdone, haccord⟩ := hok
    rw [if_neg (by simp [hdone])] at hs
    obtain rfl := Option.some.inj hs
    refine recorded_of_accord (fun hr => h.row (Option.map_eq_none_iff.mp hr)) fun r hr => ?_
    obtain ⟨r', _, rfl⟩ := Option.map_eq_some_iff.mp hr
    exact haccord
  case forgetting =>
    have hon := h.moves (c := .deleting) hcall (by simp) rfl
    split at hs
    · obtain rfl := Option.some.inj hs
      exact hon
    · split at hs
      · obtain rfl := Option.some.inj hs
        exact h.moves hcall (by simp) rfl
      · obtain rfl := Option.some.inj hs
        exact hon.frame rfl rfl rfl rfl
  case deleting =>
    split at hs
    · obtain rfl := Option.some.inj hs
      exact h.moves hcall (by simp) rfl
    · obtain rfl := Option.some.inj hs
      exact recorded_of_accord (fun _ => hok) fun r hr => by cases hr

/-! ## Runs -/

/-- A call begins: it has no loop to end, and nothing to put right. -/
theorem invariants_begin (h : Owned s ∧ Recorded s) (hends : c.ends = none)
    (hs : s.begin_ p c = some t) : Owned t ∧ Recorded t := by
  obtain ⟨hcall, rfl⟩ := begin_cases hs
  refine ⟨h.1.at_idle (by rw [hcall]; rfl) hends, h.2.at_ (.inl (by simp [hcall])) ?_⟩
  rw [hcall]
  nofun

theorem invariants_step (h : Owned s ∧ Recorded s) {a : Act} (hok : s.Orderly a)
    (hs : s.step a = some t) : Owned t ∧ Recorded t := by
  cases a with
  | create q version conn => exact invariants_begin h rfl hs
  | start q => exact invariants_begin h rfl hs
  | stop q => exact invariants_begin h rfl hs
  | update q version conn => exact invariants_begin h (by split <;> rfl) hs
  | delete q => exact invariants_begin h rfl hs
  | go q fails => exact ⟨owned_go h.1 hok hs, recorded_go h.2 hok hs⟩
  | enter i =>
      obtain ⟨l, hl, hmay, rfl⟩ := move_cases hs
      obtain ⟨hended, _⟩ := Bool.and_eq_true_iff.mp hmay
      refine ⟨h.1.modify (fun _ => id) (fun m hm _ => ?_) fun m _ _ hcancelled hend => ⟨hcancelled, hend⟩,
        h.2.frame rfl rfl rfl rfl⟩
      obtain rfl := Option.some.inj (hl.symm.trans hm)
      simpa using hended
  | leave i =>
      obtain ⟨l, hl, hmay, rfl⟩ := move_cases hs
      exact ⟨h.1.modify (fun _ => id) (fun _ _ hpoll => by cases hpoll)
        fun m _ _ hcancelled hend => ⟨hcancelled, hend⟩, h.2.frame rfl rfl rfl rfl⟩
  | finish i =>
      obtain ⟨l, hl, hmay, rfl⟩ := move_cases hs
      obtain ⟨hmay', _⟩ := Bool.and_eq_true_iff.mp hmay
      obtain ⟨hcancelled, hpolling⟩ := Bool.and_eq_true_iff.mp hmay'
      refine ⟨h.1.modify (fun _ hend => by cases hend) (fun m hm hpoll => ?_) (fun m _ hm hgoes _ => ?_),
        h.2.frame rfl rfl rfl rfl⟩
      · obtain rfl := Option.some.inj (hl.symm.trans hm)
        have : l.polling = true := hpoll
        rw [this] at hpolling
        cases hpolling
      · -- only a loop that has been cancelled ends
        obtain rfl := Option.some.inj (hl.symm.trans hm)
        rw [hgoes] at hcancelled
        cases hcancelled

theorem oneLoop_of_invariants (h : Owned s ∧ Recorded s) : OneLoop s where
  alone := fun i j l m hl hm hi hj =>
    h.1.alone i j ⟨l, hl, h.1.polling i l hl hi⟩ ⟨m, hm, h.1.polling j m hm hj⟩
  record := by
    intro hquiet hcreated
    constructor
    · rintro ⟨i, hi⟩
      have hrunning : s.running = some i := by
        refine (h.1.alive i hi).resolve_right ?_
        rintro ⟨p, hp⟩
        rw [hquiet p] at hp
        cases hp
      cases hrow : s.row with
      | none =>
          rw [h.2.row hrow] at hrunning
          cases hrunning
      | some r =>
          refine ⟨r, hrow, ?_⟩
          by_contra hactive
          obtain ⟨p, hp⟩ := h.2.active r hrow (by rw [hrunning]; rfl) (Bool.not_eq_true _ ▸ hactive)
          rw [hquiet p] at hp
          cases hp
    · rintro ⟨r, hrow, hactive⟩
      cases hrunning : s.running with
      | some i =>
          obtain ⟨l, hl, _, hended⟩ := h.1.running i hrunning
          exact ⟨i, l, hl, hended⟩
      | none =>
          rcases h.2.idle r hrow hrunning hactive with hc | ⟨p, hp⟩
          · rw [hcreated] at hc
            cases hc
          · rw [hquiet p] at hp
            cases hp

/-- Nothing goes on but the loop on the map, and it is there if and only if the row says active,
unless the session has only been created. -/
structure Settled (s : Session) : Prop where
  quiet : s.Quiet
  running : ∀ i, s.running = some i →
    ∃ l, s.loops[i]? = some l ∧ l.cancelled = false ∧ l.ended = false
  alive : ∀ i, s.Alive i → s.running = some i
  polling : ∀ (i : Nat) (l : Loop), s.loops[i]? = some l → l.polling = true → l.ended = false
  row : s.running.isSome → s.Active
  active : s.Active → s.running.isSome ∨ s.created = true

theorem invariants_of_settled (h : Settled s) : Owned s ∧ Recorded s := by
  have hends : ∀ p i, (s.calls p).ends ≠ some i := fun p i hp => by rw [h.quiet p] at hp; cases hp
  refine ⟨⟨h.running, fun i hi => .inl (h.alive i hi), fun p i hp => absurd hp (hends p i),
    fun i j hi hj => Option.some.inj ((h.alive i hi).symm.trans (h.alive j hj)), h.polling⟩, ?_⟩
  refine ⟨fun hrow => ?_, fun r hr hrunning hactive => ?_, fun r hr hrunning hactive => ?_⟩
  · cases hrunning : s.running with
    | none => rfl
    | some i =>
        obtain ⟨r, hr, _⟩ := h.row (by rw [hrunning]; rfl)
        rw [hrow] at hr
        cases hr
  · obtain ⟨r', hr', hactive'⟩ := h.row hrunning
    obtain rfl := Option.some.inj (hr.symm.trans hr')
    rw [hactive] at hactive'
    cases hactive'
  · rcases h.active ⟨r, hr, hactive⟩ with hsome | hcreated
    · rw [hrunning] at hsome
      cases hsome
    · exact .inl hcreated

end Session

open Session

/-- **In every run whose steps find what they count on, no two loops poll together, and the loop
matches the row.** -/
theorem one_loop {s t : Session} {acts : List Act} (hstart : s.Settled)
    (hrun : Run Session.step Session.Orderly s acts t) : t.OneLoop :=
  oneLoop_of_invariants
    (hrun.invariant (invariants_of_settled hstart) fun _ _ _ h => invariants_step h)

/-! ## A stop and a start -/

/-- A session that is stored and stopped. -/
def stopped : Session where
  row := some { active := false, snmpVersion := octets "v2c", conn := none }

theorem settled_stopped : stopped.Settled where
  quiet := fun _ => rfl
  running := nofun
  alive := by
    rintro i ⟨l, hl, _⟩
    cases hl
  polling := nofun
  row := nofun
  active := by
    rintro ⟨r, hr, hactive⟩
    obtain rfl := Option.some.inj hr
    cases hactive

/-- The session is started and its loop polls. -/
def started : List Act := [.start 0, .go 0 false, .go 0 false, .go 0 false, .go 0 false, .enter 0]

theorem one_loop_started :
    ∃ t, exec Session.step stopped started = some t ∧ t.Quiet ∧ t.Active ∧ t.OneLoop := by
  refine ⟨_, rfl, fun p => ?_, ⟨_, rfl, rfl⟩, one_loop settled_stopped (?_ : Run _ _ _ started _)⟩
  · by_cases hp : p = 0
    · subst hp
      rfl
    · simp [Session.at_, hp, stopped]
  · exact .head trivial rfl (.head rfl rfl (.head trivial rfl (.head
      (fun _ => ⟨by simp [Session.at_, stopped], _, rfl, by simp⟩) rfl (.head ⟨rfl, rfl⟩ rfl (.head trivial rfl (.refl _))))))

/-- **`Stop` has taken the handle off the map and `Start` finds none: two loops poll.** No call of
a store fails. -/
theorem two_loops_poll :
    ∃ t, Run Session.step (fun _ a => ∀ p, a ≠ .go p true) stopped
        (started ++ [.stop 1, .go 1 false, .start 2, .go 2 false, .go 2 false, .go 2 false, .enter 1]) t ∧
      ¬ t.OneLoop := by
  refine ⟨_, (run_of_exec rfl).of_labels fun a ha _ p hgo => ?_, fun h => ?_⟩
  · subst hgo
    simp [started] at ha
  · cases h.alone 0 1 _ _ rfl rfl rfl rfl

end SnmpLens.Sessions
