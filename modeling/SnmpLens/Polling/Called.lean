import Mathlib.Data.List.Nodup
import SnmpLens.Polling.Listed

/-!
# The calls about a session

The window calls for a session of its list, and Go goes on with the calls: a session is stored,
started, stopped or deleted. Each of these steps is about one session, and keeps the list in order.
-/

namespace SnmpLens.Polling

open Machine

theorem markRunning_ids (sessions : List Session) (id : Id) (running : Bool) :
    (markRunning sessions id running).map Session.id = sessions.map Session.id := by
  unfold markRunning
  rw [List.map_map]
  refine List.map_congr_left fun e _ => ?_
  simp only [Function.comp]
  split <;> rfl

variable {sessions : List Session}

theorem mem_markRunning {id : Id} {running : Bool} {e : Session}
    (h : e ∈ markRunning sessions id running) :
    (e.id = id ∧ e.running = running) ∨ (e.id ≠ id ∧ e ∈ sessions) := by
  obtain ⟨e', he', rfl⟩ := List.mem_map.mp h
  split
  · rename_i heq
    exact .inl ⟨heq, rfl⟩
  · rename_i hne
    exact .inr ⟨hne, he'⟩

theorem received_ids (row : Id → Row) (sessions : List Session) (id : Id) (points : List Point) :
    (received row sessions id points).map Session.id = sessions.map Session.id := by
  unfold received
  rw [List.map_map]
  refine List.map_congr_left fun e _ => ?_
  simp only [Function.comp]
  split <;> rfl

theorem mem_received {row : Id → Row} {id : Id} {points : List Point} {e : Session}
    (h : e ∈ received row sessions id points) :
    (e.id = id ∧ e.running = true) ∨ (e.id ≠ id ∧ e ∈ sessions) := by
  obtain ⟨e', he', rfl⟩ := List.mem_map.mp h
  split
  · rename_i heq
    exact .inl ⟨heq, rfl⟩
  · rename_i hne
    exact .inr ⟨hne, he'⟩

namespace Mirror

variable {row : Id → Row} {s t : Mirror} {id i : Id}

theorem beq_about (h : i ≠ id) : (i == id) = false := beq_eq_false_iff_ne.mpr h

theorem leaving_false (hr : s.removing i = false) (hd : s.deleting i = false) :
    s.leaving i = false := by
  unfold removing at hr
  unfold deleting at hd
  unfold leaving
  rw [Bool.or_eq_false_iff] at hr ⊢
  refine ⟨List.any_eq_false.mpr fun c hc => ?_, hr.2⟩
  have hr := List.any_eq_false.mp hr.1 c hc
  have hd := List.any_eq_false.mp hd c hc
  cases c with
  | stopping j remove n => exact hr
  | delete j => simpa [Call.leaves] using hd
  | _ => exact Bool.false_ne_true

variable {c : Call}

theorem stages_cons (hc : c.stage = none) {calls : List Call} (hcalls : t.calls = c :: calls) :
    t.stages = calls.filterMap Call.stage ++ t.inbox.filterMap Msg.stage := by
  unfold stages
  rw [hcalls, List.filterMap_cons_none hc]

/-- The window calls for a session of the list. -/
theorem Ordered.calls (h : s.Ordered) (hid : i ∈ s.ids) (hids : sessions.map Session.id = s.ids)
    (hothers : ∀ e ∈ sessions, e.id = i ∨ e ∈ s.sessions)
    (habout : ∀ id, i ≠ id → c.about id = false) (hstage : c.stage = none)
    (hdelete : (c == .delete i) = false) (hleaves : c.leaves i = false)
    (hstart : c.starts i = true → s.removing i = false)
    (happart : ({ s with sessions }.calls_ c).starting i = true → ({ s with sessions }.calls_ c).stopping i = false)
    (hflag : ∀ e ∈ sessions, e.id = i → ({ s with sessions }.calls_ c).removing i = true ∨ e.running = ({ s with sessions }.calls_ c).target i)
    :
    ({ s with sessions }.calls_ c).Ordered := by
  have hi := h.each i
  obtain ⟨hstored, hdel, hsince⟩ := hi.listed hid
  refine h.about i rfl (show (sessions.map Session.id).Nodup from hids ▸ h.once) h.storedOnce ?_
    (fun id hne => ?_) hothers ?_
  · refine h.reads.same rfl ?_ fun _ hin => hin
    rw [stages_cons hstage rfl]
    exact List.Subperm.refl _
  · exact
      { calls := (SameBut.refl _).cons (habout id hne)
        inbox := SameBut.refl _
        stored := Iff.rfl
        handle := rfl
        ids := by rw [← hids]; exact Iff.rfl
        since := Iff.rfl }
  · have hdel' : ({ s with sessions }.calls_ c).deleting i = false := by
      change (c == .delete i || s.deleting i) = false
      rw [hdelete, hdel]
      rfl
    have hleave : ({ s with sessions }.calls_ c).leaving i = s.leaving i := by
      change ((c.leaves i || s.calls.any (Call.leaves i)) || s.inbox.any (Msg.stops i)) = _
      rw [hleaves, Bool.false_or]
      rfl
    have hstarting : ({ s with sessions }.calls_ c).starting i = (c.starts i || s.starting i) := rfl
    exact
      { listed := fun _ => ⟨hstored, hdel', hsince⟩
        left := fun _ _ => .inl (show i ∈ sessions.map Session.id from hids ▸ hid)
        unlisted := fun _ _ hnone => absurd hnone hsince
        flag := fun _ => hflag
        apart := happart
        leaves := fun hl => by
          rw [hleave] at hl
          obtain ⟨hhandle, hnot⟩ := hi.leaves hl
          refine ⟨hhandle, ?_⟩
          rw [hstarting, hnot, Bool.or_false, Bool.eq_false_iff]
          intro hc
          rw [leaving_false (hstart hc) hdel] at hl
          exact Bool.false_ne_true hl
        polled := hi.polled
        asked := fun _ => hsince
        arrives := fun _ _ => hstored
        starts := fun _ => hstored }

theorem Ordered.resume (h : s.Ordered) (hok : s.Orderly row (.resumeSession i)) :
    (s.resumeSession i).Ordered := by
  obtain ⟨hid, hstop, hrem⟩ := hok
  have hstart : (s.resumeSession i).starting i = true := by
    simp [starting, resumeSession, calls_, Call.starts]
  refine h.calls hid (markRunning_ids _ _ _)
    (fun e he => (mem_markRunning he).imp And.left And.right) (fun id hne => beq_about hne) rfl rfl
    rfl (fun _ => hrem) (fun _ => hstop) fun e he heq => .inr ?_
  obtain ⟨-, hrun⟩ | ⟨hne, -⟩ := mem_markRunning he
  · rw [hrun]
    exact (Bool.or_eq_true_iff.mpr (.inl hstart)).symm
  · exact absurd heq hne

theorem Ordered.stop (h : s.Ordered) (hok : s.Orderly row (.stopPolling i)) :
    ({ s with sessions := markRunning s.sessions i false }.calls_ (.stop i false)).Ordered := by
  obtain ⟨hid, hstart⟩ := hok
  refine h.calls hid (markRunning_ids _ _ _)
    (fun e he => (mem_markRunning he).imp And.left And.right) (fun id hne => beq_about hne) rfl rfl
    rfl (fun hc => absurd hc Bool.false_ne_true)
    (fun hc => absurd (hstart.symm.trans hc) Bool.false_ne_true) fun e he heq => .inr ?_
  obtain ⟨-, hrun⟩ | ⟨hne, -⟩ := mem_markRunning he
  · rw [hrun]
    change false = (s.starting i || (!((i == i) || s.stopping i) && (s.handle i).isSome))
    simp [hstart]
  · exact absurd heq hne

theorem Ordered.remove (h : s.Ordered) (hok : s.Orderly row (.removeSession i)) :
    (s.calls_ (.stop i true)).Ordered := by
  obtain ⟨hid, hstart⟩ := hok
  refine h.calls hid rfl (fun e he => .inr he) (fun id hne => beq_about hne) rfl rfl rfl
    (fun hc => absurd hc Bool.false_ne_true)
    (fun hc => absurd (hstart.symm.trans hc) Bool.false_ne_true) fun e he heq => .inl ?_
  simp [removing, calls_, Call.removes]

/-! ## Go goes on with a call -/

/-- The session's calls and messages have changed, and its loop. -/
theorem Local.exec (h : s.Local i) (hsessions : t.sessions = s.sessions) (hinit : t.init = s.init)
    (hsince : t.since = s.since) (hstored : t.stored = s.stored)
    (hdeleting : t.deleting i = s.deleting i) (harriving : t.arriving i = s.arriving i)
    (hremoving : t.removing i = s.removing i) (htarget : t.target i = s.target i)
    (hstarting : t.starting i = true → s.starting i = true)
    (hstopping : t.stopping i = true → s.stopping i = true)
    (hasking : t.asking i = true → s.asking i = true)
    (hleaving : t.leaving i = true → t.handle i = none ∧ t.starting i = false)
    (hpolled : t.handle i ≠ none → i ∈ s.stored) : t.Local i := by
  have hids : t.ids = s.ids := congrArg (List.map Session.id) hsessions
  exact
    { listed := fun hid => by
        rw [hstored, hdeleting, hsince]
        exact h.listed (hids ▸ hid)
      left := fun hid hs => by
        rw [hids, hdeleting]
        exact h.left (hstored ▸ hid) (hsince ▸ hs)
      unlisted := fun hr hid hs => by
        rw [harriving]
        exact h.unlisted (hinit ▸ hr) (hstored ▸ hid) (hsince ▸ hs)
      flag := fun hset e he heq => by
        rw [hremoving, htarget]
        exact h.flag (hinit ▸ hset) e (hsessions ▸ he) heq
      apart := fun hs => by
        have happart := h.apart (hstarting hs)
        rw [Bool.eq_false_iff] at happart ⊢
        exact fun hstop => happart (hstopping hstop)
      leaves := hleaving
      polled := fun hp => hstored ▸ hpolled hp
      asked := fun ha => hsince ▸ h.asked (hasking ha)
      arrives := fun ha hs => hstored ▸ h.arrives (harriving ▸ ha) (hsince ▸ hs)
      starts := fun hs => hstored ▸ h.starts (hstarting hs) }

/-- A call about a session is executed: another may be made, and a message sent. -/
theorem Ordered.execs (h : s.Ordered) (hc : c ∈ s.calls)
    (habout : ∀ id, i ≠ id → c.about id = false) (new : Option Call) (sent : Option Msg)
    (hcalls : t.calls = new.toList ++ s.calls.erase c) (hinbox : t.inbox = s.inbox ++ sent.toList)
    (hnew : ∀ c ∈ new, c.stage = none ∧ ∀ id, i ≠ id → c.about id = false)
    (hsent : ∀ m ∈ sent, m.stage = none ∧ ∀ id, i ≠ id → m.about id = false)
    (hsessions : t.sessions = s.sessions) (hinit : t.init = s.init) (hsince : t.since = s.since)
    (honce : t.stored.Nodup) (hstored : ∀ id, i ≠ id → (id ∈ t.stored ↔ id ∈ s.stored))
    (hhandle : ∀ id, i ≠ id → t.handle id = s.handle id) (hat : t.Local i) : t.Ordered := by
  have hids : t.ids = s.ids := congrArg (List.map Session.id) hsessions
  refine h.about i hinit (hids ▸ h.once) honce (h.reads.same hinit ?_ ?_) (fun id hne => ?_)
    (fun e he => .inr (hsessions ▸ he)) hat
  · have herase : ((s.calls.erase c).filterMap Call.stage).Subperm (s.calls.filterMap Call.stage) :=
      (List.erase_sublist.filterMap _).subperm
    have hnone : new.toList.filterMap Call.stage = [] := by
      cases new with
      | none => rfl
      | some c => exact List.filterMap_cons_none (hnew c rfl).1
    have hnone' : sent.toList.filterMap Msg.stage = [] := by
      cases sent with
      | none => rfl
      | some m => exact List.filterMap_cons_none (hsent m rfl).1
    unfold stages
    rw [hcalls, hinbox, List.filterMap_append, List.filterMap_append, hnone, hnone',
      List.nil_append, List.append_nil]
    exact herase.append (List.Subperm.refl _)
  · intro ids hin
    rw [hinbox, List.mem_append] at hin
    refine hin.resolve_right fun hin => ?_
    exact absurd (hsent _ (Option.mem_toList.mp hin)).1 (by simp [Msg.stage])
  · exact
      { calls := by
          rw [hcalls]
          refine (SameBut.erase hc (habout id hne)).prepend fun c hin => ?_
          exact (hnew c (Option.mem_toList.mp hin)).2 id hne
        inbox := by
          rw [hinbox]
          cases sent with
          | none => simpa using SameBut.refl s.inbox
          | some m => exact (SameBut.refl _).append ((hsent m rfl).2 id hne)
        stored := hstored id hne
        handle := hhandle id hne
        ids := by rw [hids]
        since := by rw [hsince] }

/-- A call that neither starts nor stops the session is executed, and what it brings announced. -/
theorem Ordered.announces (h : s.Ordered) (hc : c ∈ s.calls) {m : Msg}
    (habout : ∀ id, i ≠ id → c.about id = false) (habout' : ∀ id, i ≠ id → m.about id = false)
    (hstage : m.stage = none) (harrives : c.arrives i = true) (harrives' : m.arrives i = true)
    (hstops : m.stops i = false) (hstarts : c.starts i = false) (hstop : c.stops i = false)
    (hremoves : c.removes i = false) (hleaves : c.leaves i = false)
    (hdelete : (c == .delete i) = false) (hlisted : c.listed i = false) :
    ((s.drop c).sends m).Ordered := by
  have hi := h.each i
  refine h.execs hc habout none (some m) rfl rfl (by simp)
    (by rintro m' ⟨⟩; exact ⟨hstage, habout'⟩) rfl rfl rfl h.storedOnce (fun _ _ => Iff.rfl)
    (fun _ _ => rfl) ?_
  have hmsgs : ((s.drop c).sends m).inbox.any (Msg.stops i) = s.inbox.any (Msg.stops i) := by
    simp [sends, drop, hstops]
  have hsame : ∀ p : Call → Bool, p c = false →
      ((s.drop c).sends m).calls.any p = s.calls.any p := fun p hp => by
    rw [any_erase hc p, hp, Bool.false_or]
    rfl
  have hstarting : ((s.drop c).sends m).starting i = s.starting i := hsame _ hstarts
  have hstopping : ((s.drop c).sends m).stopping i = s.stopping i := hsame _ hstop
  have harriving : s.arriving i = true := by
    rw [arriving, any_erase hc, harrives]
    simp
  refine hi.exec rfl rfl rfl rfl (hsame _ hdelete) ?_ ?_ ?_ ?_ ?_ ?_ ?_ hi.polled
  · rw [harriving]
    simp [arriving, sends, harrives']
  · unfold removing
    rw [hsame _ hremoves, hmsgs]
  · unfold target
    rw [hstarting, hstopping]
    rfl
  · exact fun hs => hstarting ▸ hs
  · exact fun hs => hstopping ▸ hs
  · unfold asking
    rw [hsame _ hlisted, hmsgs]
    exact id
  · unfold leaving
    rw [hsame _ hleaves, hmsgs, hstarting]
    exact hi.leaves

/-- A stop is over, of which nothing is left but the answer a removal awaits. -/
theorem Ordered.stopped (h : s.Ordered) (hc : c ∈ s.calls) {remove : Bool}
    (habout : ∀ id, i ≠ id → c.about id = false) (hstarts : c.starts i = false)
    (hstops : c.stops i = true → s.handle i = none) (hremoves : c.removes i = remove)
    (hleaves : c.leaves i = true → remove = true) (hdelete : (c == .delete i) = false)
    (harrives : c.arrives i = false) (hlisted : c.listed i = true)
    (hnone : remove = true → s.handle i = none ∧ s.starting i = false) :
    (if remove then (s.drop c).sends (.stopped i) else s.drop c).Ordered := by
  have hi := h.each i
  generalize ht : (if remove then (s.drop c).sends (.stopped i) else s.drop c) = t
  have hcalls : t.calls = s.calls.erase c := by rw [← ht]; split <;> rfl
  have hinbox : t.inbox = s.inbox ++ (if remove then [.stopped i] else []) := by
    rw [← ht]
    split
    · rfl
    · exact (List.append_nil _).symm
  have hhandle : t.handle = s.handle := by rw [← ht]; split <;> rfl
  have hstored : t.stored = s.stored := by rw [← ht]; split <;> rfl
  have hsessions : t.sessions = s.sessions := by rw [← ht]; split <;> rfl
  have hsame : ∀ p : Call → Bool, p c = false → t.calls.any p = s.calls.any p := fun p hp => by
    rw [any_erase hc p, hp, Bool.false_or, hcalls]
  have hless : ∀ p : Call → Bool, t.calls.any p = true → s.calls.any p = true := fun p hp => by
    rw [any_erase hc p, ← hcalls, hp, Bool.or_true]
  have hmsgs : t.inbox.any (Msg.stops i) = (s.inbox.any (Msg.stops i) || remove) := by
    rw [hinbox, List.any_append]
    cases remove <;> simp [Msg.stops]
  refine h.execs hc habout none (if remove then some (.stopped i) else none) hcalls ?_ (by simp)
    ?_ hsessions (by rw [← ht]; split <;> rfl) (by rw [← ht]; split <;> rfl)
    (hstored ▸ h.storedOnce) (fun _ _ => by rw [hstored]) (fun _ _ => by rw [hhandle]) ?_
  · rw [hinbox]
    split <;> rfl
  · intro m hm
    split at hm
    · cases hm
      exact ⟨rfl, fun id hne => beq_about hne⟩
    · cases hm
  · refine hi.exec hsessions (by rw [← ht]; split <;> rfl) (by rw [← ht]; split <;> rfl) hstored
      (hsame _ hdelete) ?_ ?_ ?_ ?_ ?_ ?_ ?_ ?_
    · unfold arriving
      rw [hsame _ harrives, hinbox, List.any_append]
      cases remove <;> simp [Msg.arrives]
    · unfold removing
      rw [hmsgs, any_erase hc (Call.removes i), hremoves, hcalls]
      cases remove <;> simp
    · unfold target
      have hstarting : t.starting i = s.starting i := hsame _ hstarts
      rw [hstarting, hhandle]
      cases hstop : c.stops i with
      | false =>
          have hstopping : t.stopping i = s.stopping i := hsame _ hstop
          rw [hstopping]
      | true => simp [hstops hstop]
    · exact hless _
    · exact hless _
    · unfold asking
      intro _
      rw [any_erase hc, hlisted]
      rfl
    · unfold leaving
      rw [hmsgs, hhandle]
      intro hl
      have hstarting : t.starting i = s.starting i := hsame _ hstarts
      rw [hstarting]
      cases hr : remove with
      | true => exact hnone hr
      | false =>
          rw [hr, Bool.or_false] at hl
          refine hi.leaves ?_
          unfold leaving
          rw [Bool.or_eq_true] at hl ⊢
          exact hl.imp_left (hless _)
    · rw [hhandle]
      exact hi.polled

/-! ## The loops -/

section starts

variable (row)

theorem starts_rest (s : Mirror) (i : Id) :
    (s.starts row i).calls = s.calls ∧ (s.starts row i).inbox = s.inbox ∧
      (s.starts row i).stored = s.stored ∧ (s.starts row i).sessions = s.sessions ∧
      (s.starts row i).init = s.init ∧ (s.starts row i).since = s.since := by
  unfold Mirror.starts
  split
  · exact ⟨rfl, rfl, rfl, rfl, rfl, rfl⟩
  · split <;> exact ⟨rfl, rfl, rfl, rfl, rfl, rfl⟩

theorem starts_handle_other (s : Mirror) (h : i ≠ id) :
    (s.starts row i).handle id = s.handle id := by
  unfold Mirror.starts
  split
  · rfl
  · split
    · rfl
    · exact if_neg h.symm

end starts

/-- A session with something to poll has a loop once it is started. -/
theorem starts_handle (hoids : (row i).oids ≠ []) (htargets : (row i).targets ≠ []) :
    ((s.starts row i).handle i).isSome = true := by
  unfold Mirror.starts
  rw [if_neg (not_or.mpr ⟨hoids, htargets⟩)]
  split
  · rename_i n hn
    rw [hn]
    rfl
  · change (if i = i then some s.nextLoop else s.handle i).isSome = true
    rw [if_pos rfl]
    rfl

/-- A session is started, and a binding goes on. -/
theorem Ordered.started (h : s.Ordered) (hc : c ∈ s.calls) (new : Option Call)
    (hcalls : t.calls = new.toList ++ s.calls.erase c) (hinbox : t.inbox = s.inbox)
    (hstored : t.stored = s.stored) (hsessions : t.sessions = s.sessions) (hinit : t.init = s.init)
    (hsince : t.since = s.since) (hother : ∀ id, i ≠ id → t.handle id = s.handle id)
    (hsome : (t.handle i).isSome = true) (habout : ∀ id, i ≠ id → c.about id = false)
    (hnew : ∀ c ∈ new, c.stage = none ∧ ∀ id, i ≠ id → c.about id = false)
    (hstarts : c.starts i = true) (hstops : c.stops i = false) (hremoves : c.removes i = false)
    (hleaves : c.leaves i = false) (hdelete : (c == .delete i) = false)
    (harrives : c.arrives i = new.any (Call.arrives i))
    (hquiet : ∀ c ∈ new, c.starts i = false ∧ c.stops i = false ∧ c.removes i = false ∧ c.leaves i = false ∧ (c == .delete i) = false ∧ c.listed i = false)
    : t.Ordered := by
  have hi := h.each i
  have hall : ∀ p : Call → Bool, t.calls.any p = (new.any p || (s.calls.erase c).any p) := by
    intro p
    rw [hcalls, List.any_append]
    cases new <;> simp
  have hsame : ∀ p : Call → Bool, p c = new.any p → t.calls.any p = s.calls.any p := fun p hp => by
    rw [any_erase hc p, hp, hall]
  have hnone : ∀ p : Call → Bool, (∀ c ∈ new, p c = false) → new.any p = false := by
    intro p hp
    cases new with
    | none => rfl
    | some c => exact hp c rfl
  have hstarting : s.starting i = true := by
    rw [starting, any_erase hc, hstarts]
    rfl
  have hstopping : t.stopping i = s.stopping i :=
    hsame _ (hstops.trans (hnone _ fun c hin => (hquiet c hin).2.1).symm)
  have hleaving : t.leaving i = s.leaving i := by
    unfold leaving
    rw [hsame _ (hleaves.trans (hnone _ fun c hin => (hquiet c hin).2.2.2.1).symm), hinbox]
  refine h.execs hc habout new none hcalls (by simpa using hinbox) hnew (by simp) hsessions hinit
    hsince (hstored ▸ h.storedOnce) (fun _ _ => by rw [hstored]) hother ?_
  refine hi.exec hsessions hinit hsince hstored
    (hsame _ (hdelete.trans (hnone _ fun c hin => (hquiet c hin).2.2.2.2.1).symm)) ?_ ?_ ?_
    (fun _ => hstarting) (fun hs => hstopping ▸ hs) ?_ ?_ ?_
  · unfold arriving
    rw [hsame _ harrives, hinbox]
  · unfold removing
    rw [hsame _ (hremoves.trans (hnone _ fun c hin => (hquiet c hin).2.2.1).symm), hinbox]
  · unfold target
    rw [hstopping, hi.apart hstarting, hstarting, hsome]
    simp
  · unfold asking
    rw [hall, hnone _ fun c hin => (hquiet c hin).2.2.2.2.2, any_erase hc, hinbox]
    cases c.listed i <;> simp
  · rw [hleaving]
    intro hl
    have hfalse := (hi.leaves hl).2
    rw [hstarting] at hfalse
    cases hfalse
  · exact fun _ => hi.starts hstarting

/-- The loop of a session is cancelled. -/
theorem Ordered.cancelled (h : s.Ordered) {remove : Bool} (hc : .stop i remove ∈ s.calls) {n : Nat}
    (loops : List Loop) :
    ({ s.drop (.stop i remove) with
        handle := fun id => if id = i then none else s.handle id
        loops }.calls_ (.stopping i remove n)).Ordered := by
  have hi := h.each i
  generalize ht : ({ s.drop (.stop i remove) with
        handle := fun id => if id = i then none else s.handle id
        loops }.calls_ (.stopping i remove n)) = t
  have hcalls : t.calls = .stopping i remove n :: s.calls.erase (.stop i remove) := by
    rw [← ht]
    rfl
  have hinbox : t.inbox = s.inbox := by rw [← ht]; rfl
  have hstored : t.stored = s.stored := by rw [← ht]; rfl
  have hgone : t.handle i = none := by
    rw [← ht]
    exact if_pos rfl
  have hsame : ∀ p : Call → Bool, p (.stop i remove) = p (.stopping i remove n) →
      t.calls.any p = s.calls.any p := fun p hp => by
    rw [any_erase hc p, hp, hcalls, List.any_cons]
  have hstop : s.stopping i = true := by
    rw [stopping, any_erase hc]
    simp [Call.stops]
  have hnot : s.starting i = false := by
    rw [Bool.eq_false_iff]
    intro hstart
    have happart := hi.apart hstart
    rw [hstop] at happart
    cases happart
  have hstarting : t.starting i = s.starting i := hsame _ rfl
  refine h.execs hc (fun id hne => beq_about hne) (some (.stopping i remove n)) none hcalls
    (by simpa using hinbox) (by rintro c ⟨⟩; exact ⟨rfl, fun id hne => beq_about hne⟩) (by simp)
    (by rw [← ht]; rfl) (by rw [← ht]; rfl) (by rw [← ht]; rfl) (hstored ▸ h.storedOnce)
    (fun _ _ => by rw [hstored]) (fun id hne => by rw [← ht]; exact if_neg hne.symm) ?_
  refine hi.exec (by rw [← ht]; rfl) (by rw [← ht]; rfl) (by rw [← ht]; rfl) hstored (hsame _ rfl)
    ?_ ?_ ?_ ?_ (fun _ => hstop) ?_ ?_ (fun hp => absurd hgone hp)
  · unfold arriving
    rw [hsame _ rfl, hinbox]
  · unfold removing
    rw [hsame _ rfl, hinbox]
  · unfold target
    rw [hstarting, hnot, hstop, hgone]
    simp
  · exact fun hs => hstarting ▸ hs
  · unfold asking
    rw [hsame _ rfl, hinbox]
    exact id
  · exact fun _ => ⟨hgone, hstarting.trans hnot⟩

/-- The row of a session is deleted. -/
theorem Ordered.deleted (h : s.Ordered) (hc : .delete i ∈ s.calls) (points : Id → List Point) :
    ({ s.drop (.delete i) with
        stored := s.stored.filter fun j => j != i
        points } : Mirror).Ordered := by
  have hi := h.each i
  generalize ht : ({ s.drop (.delete i) with
        stored := s.stored.filter fun j => j != i
        points } : Mirror) = t
  have hcalls : t.calls = s.calls.erase (.delete i) := by rw [← ht]; rfl
  have hinbox : t.inbox = s.inbox := by rw [← ht]; rfl
  have hhandle : t.handle = s.handle := by rw [← ht]; rfl
  have hsessions : t.sessions = s.sessions := by rw [← ht]; rfl
  have hsince : t.since = s.since := by rw [← ht]; rfl
  have hstored : t.stored = s.stored.filter fun j => j != i := by rw [← ht]
  have hless : ∀ p : Call → Bool, t.calls.any p = true → s.calls.any p = true := fun p hp => by
    rw [any_erase hc p, ← hcalls, hp, Bool.or_true]
  have hdeleting : s.deleting i = true := by
    rw [deleting, any_erase hc]
    simp
  have hleaving : s.leaving i = true := by
    rw [leaving, any_erase hc]
    simp [Call.leaves]
  have hknown : s.since i ≠ none := hi.asked <| by
    rw [asking, any_erase hc]
    simp [Call.listed]
  obtain ⟨hnone, hnot⟩ := hi.leaves hleaving
  have hgone : i ∉ t.stored := by
    rw [hstored]
    simp
  have hunlisted : i ∉ t.ids := by
    rw [show t.ids = s.ids from congrArg (List.map Session.id) hsessions]
    intro hid
    have hdel := (hi.listed hid).2.1
    rw [hdeleting] at hdel
    cases hdel
  have hnot' : t.starting i = false := by
    rw [Bool.eq_false_iff] at hnot ⊢
    exact fun hs => hnot (hless _ hs)
  refine h.execs hc (fun id hne => beq_about hne) none none hcalls (by simpa using hinbox) (by simp)
    (by simp) hsessions (by rw [← ht]; rfl) hsince (hstored ▸ h.storedOnce.filter _)
    (fun id hne => ?_) (fun id _ => by rw [hhandle]) ?_
  · rw [hstored]
    simp [hne.symm]
  · exact
      { listed := fun hid => absurd hid hunlisted
        left := fun hid => absurd hid hgone
        unlisted := fun _ hid => absurd hid hgone
        flag := fun _ e he heq => absurd (heq ▸ List.mem_map_of_mem he) hunlisted
        apart := fun hs => absurd (hnot'.symm.trans hs) Bool.false_ne_true
        leaves := fun _ => ⟨hhandle ▸ hnone, hnot'⟩
        polled := fun hp => absurd (hhandle ▸ hnone) hp
        asked := fun _ => hsince ▸ hknown
        arrives := fun _ hs => absurd (hsince ▸ hs) hknown
        starts := fun hs => absurd (hnot'.symm.trans hs) Bool.false_ne_true }

/-! ## The startup -/

/-- A call of the startup is answered. -/
theorem Ordered.answers (h : s.Ordered) (hc : c ∈ s.calls) {m : Msg} {k : Nat}
    (hstage : c.stage = some k) (hstage' : m.stage = some k) (habout : ∀ id, c.about id = false)
    (habout' : ∀ id, m.about id = false) (hsent : ∀ ids, m = .sessions ids → ids.Nodup) :
    ((s.drop c).sends m).Ordered := by
  refine h.plain (fun id => ?_) rfl rfl ?_ .inl fun hset e he => (h.each e.id).flag hset e he rfl
  · exact
      { calls := SameBut.erase hc (habout id)
        inbox := (SameBut.refl _).append (habout' id)
        stored := Iff.rfl
        handle := rfl
        ids := Iff.rfl
        since := Iff.rfl }
  · refine
      { stages := List.Subperm.trans ?_ h.reads.stages
        loading := h.reads.loading
        sent := fun ids hin => ?_ }
    · have hcalls : (s.calls.filterMap Call.stage).Perm
          (k :: (s.calls.erase c).filterMap Call.stage) := by
        have hperm := (List.perm_cons_erase hc).filterMap Call.stage
        rwa [List.filterMap_cons_some hstage] at hperm
      have hinbox : ((s.drop c).sends m).inbox.filterMap Msg.stage =
          s.inbox.filterMap Msg.stage ++ [k] := by
        change (s.inbox ++ [m]).filterMap Msg.stage = _
        rw [List.filterMap_append, List.filterMap_cons_some hstage', List.filterMap_nil]
      unfold stages
      rw [hinbox, ← List.append_assoc]
      refine List.Perm.subperm (List.Perm.trans (List.perm_append_singleton _ _) ?_)
      exact (hcalls.append_right _).symm
    · obtain hin | hin := List.mem_append.mp hin
      · exact h.reads.sent ids hin
      · exact hsent ids (List.mem_singleton.mp hin).symm

/-- **Go goes on with a call.** -/
theorem Ordered.exec (h : s.Ordered) (hok : s.Orderly row (.exec c))
    (hs : s.step row (.exec c) = some t) : t.Ordered := by
  simp only [step] at hs
  split at hs
  swap
  · cases hs
  rename_i hc
  cases c with
  | create => cases hs
  | bind => cases hs
  | loadData id => cases hs
  | storing id | bound id =>
      obtain rfl := Option.some.inj hs
      exact h.announces hc (fun _ hne => beq_about hne) (fun _ hne => beq_about hne) rfl
        (beq_self_eq_true id) (beq_self_eq_true id) rfl rfl rfl rfl rfl rfl rfl
  | binding id =>
      obtain rfl := Option.some.inj hs
      obtain ⟨hcalls, hinbox, hstored, hsessions, hinit, hsince⟩ :=
        starts_rest row (s.drop (.binding id)) id
      exact h.started hc (some (.bound id)) (congrArg (Call.bound id :: ·) hcalls) hinbox hstored
        hsessions hinit hsince (fun _ hne => starts_handle_other row _ hne)
        (starts_handle hok.1 hok.2) (fun _ hne => beq_about hne)
        (by rintro c ⟨⟩; exact ⟨rfl, fun _ hne => beq_about hne⟩) (beq_self_eq_true id) rfl rfl rfl
        rfl rfl (by rintro c ⟨⟩; exact ⟨rfl, rfl, rfl, rfl, rfl, rfl⟩)
  | start id =>
      simp only [Mirror.exec] at hs
      split at hs
      swap
      · cases hs
      obtain rfl := Option.some.inj hs
      obtain ⟨hcalls, hinbox, hstored, hsessions, hinit, hsince⟩ :=
        starts_rest row (s.drop (.start id)) id
      exact h.started hc none hcalls hinbox hstored hsessions hinit hsince
        (fun _ hne => starts_handle_other row _ hne) (starts_handle hok.1 hok.2)
        (fun _ hne => beq_about hne) (by simp) (beq_self_eq_true id) rfl rfl rfl rfl rfl (by simp)
  | stop id remove =>
      have hstop : s.stopping id = true := by
        rw [stopping, any_erase hc]
        simp [Call.stops]
      simp only [Mirror.exec] at hs
      split at hs
      · obtain rfl := Option.some.inj hs
        exact h.cancelled hc _
      · rename_i hnone
        obtain rfl := Option.some.inj hs
        refine h.stopped hc (fun _ hne => beq_about hne) rfl (fun _ => hnone) ?_ ?_ rfl rfl
          (beq_self_eq_true id) fun _ => ⟨hnone, ?_⟩
        · simp [Call.removes]
        · exact fun hl => absurd hl Bool.false_ne_true
        · rw [Bool.eq_false_iff]
          intro hstart
          have happart := (h.each id).apart hstart
          rw [hstop] at happart
          cases happart
  | stopping id remove n =>
      simp only [Mirror.exec] at hs
      split at hs
      · cases hs
      · obtain rfl := Option.some.inj hs
        refine h.stopped hc (fun _ hne => beq_about hne) rfl
          (fun hstop => absurd hstop Bool.false_ne_true) ?_ ?_ rfl rfl (beq_self_eq_true id)
          fun hremove => (h.each id).leaves ?_
        · simp [Call.removes]
        · simp [Call.leaves]
        · rw [leaving, any_erase hc]
          simp [Call.leaves, hremove]
  | delete id =>
      obtain rfl := Option.some.inj hs
      exact h.deleted hc _
  | loadSessions =>
      obtain rfl := Option.some.inj hs
      exact h.answers hc rfl rfl (fun _ => rfl) (fun _ => rfl)
        (by rintro ids ⟨⟩; exact h.storedOnce)
  | running =>
      obtain rfl := Option.some.inj hs
      exact h.answers hc rfl rfl (fun _ => rfl) (fun _ => rfl) (by rintro ids ⟨⟩)

/-! ## A new session is stored -/

theorem Ordered.stores (h : s.Ordered) {c new : Call} (hc : c ∈ s.calls) (hnew : s.New i)
    (hplain : ∀ id, c.about id = false) (habout : ∀ id, i ≠ id → new.about id = false)
    (hstage : new.stage = none) (harrives : new.arrives i = true) (hstops : new.stops i = false)
    (hleaves : new.leaves i = false) (hlisted : new.listed i = false) :
    (({ s with stored := s.stored ++ [i] } : Mirror).drop c |>.calls_ new).Ordered := by
  obtain ⟨hstored, hsince, hhandle, hcalls, hinbox⟩ := hnew
  have hunlisted : i ∉ s.ids := fun hid => hstored ((h.each i).listed hid).1
  have hmsg : s.inbox.any (Msg.stops i) = false := by
    rw [Bool.eq_false_iff] at hinbox ⊢
    exact fun hm => hinbox (any_imp (fun m hm => by rw [hm, Bool.or_true]) hm)
  generalize ht : (({ s with stored := s.stored ++ [i] } : Mirror).drop c |>.calls_ new) = t
  have hnone : ∀ p : Call → Bool, p new = false → (∀ c, p c = true → c.about i = true) →
      t.calls.any p = false := by
    intro p hp himp
    have hrest : s.calls.any p = false := by
      rw [Bool.eq_false_iff] at hcalls ⊢
      exact fun hany => hcalls (any_imp himp hany)
    rw [any_erase hc p, Bool.or_eq_false_iff] at hrest
    rw [← ht]
    change (p new || (s.calls.erase c).any p) = false
    rw [hp, hrest.2]
    rfl
  have hids : t.ids = s.ids := by rw [← ht]; rfl
  have hbox : t.inbox = s.inbox := by rw [← ht]; rfl
  have hin : i ∈ t.stored := by
    rw [← ht]
    exact List.mem_append_right _ (List.mem_singleton_self i)
  refine h.about i (by rw [← ht]; rfl) (hids ▸ h.once) ?_ (h.reads.same (by rw [← ht]; rfl) ?_ ?_)
    (fun id hne => ?_) (fun e he => .inr (by rw [← ht] at he; exact he)) ?_
  · rw [← ht]
    change (s.stored ++ [i]).Nodup
    exact List.nodup_append_comm.mpr (List.nodup_cons.mpr ⟨hstored, h.storedOnce⟩)
  · rw [← ht, stages_cons hstage rfl]
    exact List.Subperm.append (List.erase_sublist.filterMap _).subperm (List.Subperm.refl _)
  · rw [← ht]
    exact fun _ hm => hm
  · rw [← ht]
    exact
      { calls := (SameBut.erase hc (hplain id)).cons (habout id hne)
        inbox := SameBut.refl _
        stored := by
          change id ∈ s.stored ++ [i] ↔ _
          rw [List.mem_append, List.mem_singleton, or_iff_left hne.symm]
        handle := rfl
        ids := Iff.rfl
        since := Iff.rfl }
  · have hnot : t.stopping i = false :=
      hnone _ hstops fun c hc => by cases c <;> first | exact hc | cases hc
    have hstay : t.leaving i = false := by
      have himp : ∀ c, Call.leaves i c = true → c.about i = true := fun c hc => by
        cases c with
        | stopping j remove n => exact (Bool.and_eq_true_iff.mp hc).2
        | delete j => exact hc
        | _ => cases hc
      unfold leaving
      rw [hnone _ hleaves himp, hbox]
      exact hmsg
    have hquiet : t.asking i = false := by
      have himp : ∀ c, Call.listed i c = true → c.about i = true := fun c hc => by
        cases c <;> first | exact hc | cases hc
      unfold asking
      rw [hnone _ hlisted himp, hbox]
      exact hmsg
    exact
      { listed := fun hid => absurd (hids ▸ hid) hunlisted
        left := fun _ hs => absurd (by rw [← ht]; exact hsince) hs
        unlisted := fun _ _ _ => by
          rw [← ht, arriving]
          change ((new.arrives i || _) || _) = true
          rw [harrives]
          simp
        flag := fun _ e he heq => absurd (hids ▸ heq ▸ List.mem_map_of_mem he) hunlisted
        apart := fun _ => hnot
        leaves := fun hl => absurd (hstay.symm.trans hl) Bool.false_ne_true
        polled := fun _ => hin
        asked := fun ha => absurd (hquiet.symm.trans ha) Bool.false_ne_true
        arrives := fun _ _ => hin
        starts := fun _ => hin }

end Mirror

end SnmpLens.Polling
