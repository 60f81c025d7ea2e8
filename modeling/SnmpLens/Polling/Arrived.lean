import SnmpLens.Polling.Called

/-!
# What Go sent arrives

Samples, the answers the operations await and those of the startup, which replaces the list, each
under the condition that the message fits. With the calls this makes every step keep the list in
order.
-/

namespace SnmpLens.Polling

open Machine

namespace Mirror

variable {row : Id → Row} {s t : Mirror} {id i : Id}

/-- The state once the first message is taken out. -/
def taken (s : Mirror) (rest : List Msg) : Mirror := { s with inbox := rest }

variable {rest : List Msg}

theorem reads_taken {m : Msg} (hinbox : s.inbox = m :: rest) :
    (s.taken rest).stages.Subperm s.stages ∧
      ∀ ids, .sessions ids ∈ rest → .sessions ids ∈ s.inbox := by
  constructor
  · unfold stages taken
    rw [hinbox]
    exact List.Subperm.append (List.Subperm.refl _)
      ((List.sublist_cons_self m rest).filterMap _).subperm
  · intro ids hin
    rw [hinbox]
    exact List.mem_cons_of_mem m hin

/-- Samples arrive for a session whose flag may be set. -/
theorem Ordered.samples (h : s.Ordered) {points : List Point}
    (hinbox : s.inbox = .samples i points :: rest) (hfits : i ∈ s.ids → s.Runs i) :
    ((s.taken rest).arrive row (.samples i points)).Ordered := by
  have hids : ((s.taken rest).arrive row (.samples i points)).ids = s.ids := received_ids row _ _ _
  refine h.plain (fun id => ?_) hids rfl ?_ .inl fun hset e he => ?_
  · exact
      { calls := SameBut.refl _
        inbox := by
          rw [hinbox]
          exact SameBut.tail _ rfl
        stored := Iff.rfl
        handle := rfl
        ids := by rw [hids]
        since := by
          change (if id = i then (s.since i).map _ else s.since id) = none ↔ _
          split
          · rename_i heq
            rw [heq, Option.map_eq_none_iff]
          · rfl }
  · exact h.reads.same rfl (reads_taken hinbox).1 (reads_taken hinbox).2
  · obtain ⟨heq, hrun⟩ | ⟨-, he⟩ := mem_received he
    · have hid : i ∈ s.ids := hids ▸ List.mem_map.mpr ⟨e, he, heq⟩
      obtain hsettling | hremoving | htarget := hfits hid
      · exact absurd (hset.symm.trans hsettling) Bool.false_ne_true
      · exact .inl (heq ▸ hremoving)
      · exact .inr (by rw [hrun, heq, htarget])
    · exact (h.each e.id).flag hset e he rfl

/-- A session that was never listed is not asked for. -/
theorem Local.unknown (h : s.Local i) (hsince : s.since i = none) :
    s.deleting i = false ∧ s.stopping i = false ∧ s.leaving i = false ∧ i ∉ s.ids := by
  have hasking : s.asking i = false := by
    rw [Bool.eq_false_iff]
    exact fun ha => h.asked ha hsince
  unfold asking at hasking
  rw [Bool.or_eq_false_iff] at hasking
  have hnone : ∀ p : Call → Bool, (∀ c, p c = true → c.listed i = true) →
      s.calls.any p = false := by
    intro p himp
    rw [Bool.eq_false_iff]
    intro hp
    exact Bool.false_ne_true (hasking.1.symm.trans (any_imp himp hp))
  refine ⟨hnone _ ?_, hnone _ ?_, ?_, fun hid => (h.listed hid).2.2 hsince⟩
  · intro c hc
    rw [beq_iff_eq] at hc
    rw [hc]
    exact beq_self_eq_true i
  · intro c hc
    cases c <;> first | exact hc | cases hc
  · unfold leaving
    rw [hasking.2, Bool.or_false]
    refine hnone _ fun c hc => ?_
    cases c with
    | stopping j remove n => exact (Bool.and_eq_true_iff.mp hc).2
    | delete j => exact hc
    | _ => cases hc

theorem lists_since (s : Mirror) (sessions : List Session) (id : Id) :
    (s.lists sessions).since id = none ↔ s.since id = none ∧ id ∉ sessions.map Session.id := by
  change (if id ∈ sessions.map Session.id then some ((s.since id).getD []) else s.since id) = none ↔ _
  split
  · rename_i hin
    simp [hin]
  · rename_i hout
    simp [hout]

/-- A session is put on the list. -/
theorem Ordered.lists (h : s.Ordered) {m : Msg} (hinbox : s.inbox = m :: rest)
    (hstage : m.stage = none) (habout : ∀ id, i ≠ id → m.about id = false)
    (harrives : m.arrives i = true) (hsince : s.since i = none) (new : Option Call)
    (hnew : ∀ c ∈ new, c = .start i) (hcalls : t.calls = new.toList ++ s.calls)
    (hbox : t.inbox = rest) (hstored : t.stored = s.stored) (hhandle : t.handle = s.handle)
    (hinit : t.init = s.init)
    (hsessions : t.sessions = s.sessions ++ [{ id := i, results := [], running := true }])
    (hsinces : ∀ id, t.since id = none ↔ s.since id = none ∧ id ∉ t.ids)
    (hruns : t.init.settling = false → t.removing i = true ∨ t.target i = true) : t.Ordered := by
  have hi := h.each i
  obtain ⟨hdel, hstop, hleave, hunlisted⟩ := hi.unknown hsince
  have harriving : s.arriving i = true := by
    rw [arriving, hinbox, List.any_cons, harrives]
    simp
  have hin : i ∈ s.stored := hi.arrives harriving hsince
  have hids : t.ids = s.ids ++ [i] := by
    change t.sessions.map Session.id = _
    rw [hsessions, List.map_append]
    rfl
  have hlisted : i ∈ t.ids := by simp [hids]
  have hnone : ∀ p : Call → Bool, (p (.start i)) = false → t.calls.any p = s.calls.any p := by
    intro p hp
    rw [hcalls, List.any_append]
    cases new with
    | none => rfl
    | some c => simp [hnew c rfl, hp]
  have hless : ∀ p : Msg → Bool, t.inbox.any p = true → s.inbox.any p = true := fun p hp => by
    rw [hinbox, List.any_cons, ← hbox, hp, Bool.or_true]
  have hknown : t.since i ≠ none := fun hs => ((hsinces i).mp hs).2 hlisted
  have hstay : t.leaving i = false := by
    unfold leaving at hleave ⊢
    rw [Bool.or_eq_false_iff] at hleave ⊢
    refine ⟨(hnone _ rfl).trans hleave.1, ?_⟩
    rw [Bool.eq_false_iff]
    exact fun hm => Bool.false_ne_true (hleave.2.symm.trans (hless _ hm))
  refine h.about i hinit ?_ (hstored ▸ h.storedOnce) (h.reads.same hinit ?_ ?_) (fun id hne => ?_)
    (fun e he => ?_) ?_
  · rw [hids]
    exact List.nodup_append_comm.mpr (List.nodup_cons.mpr ⟨hunlisted, h.once⟩)
  · have hcall : t.calls.filterMap Call.stage = s.calls.filterMap Call.stage := by
      rw [hcalls]
      cases new with
      | none => rfl
      | some c => rw [hnew c rfl]; rfl
    unfold stages
    rw [hcall, hbox, hinbox, List.filterMap_cons_none hstage]
  · rw [hbox]
    exact (reads_taken hinbox).2
  · exact
      { calls := by
          rw [hcalls]
          refine (SameBut.refl _).prepend fun c hc => ?_
          obtain rfl := hnew c (Option.mem_toList.mp hc)
          exact beq_about hne
        inbox := by
          rw [hbox, hinbox]
          exact SameBut.tail m (habout id hne)
        stored := by rw [hstored]
        handle := by rw [hhandle]
        ids := by rw [hids, List.mem_append, List.mem_singleton, or_iff_left hne.symm]
        since := by
          rw [hsinces, hids, List.mem_append, List.mem_singleton, or_iff_left hne.symm]
          exact and_iff_left_of_imp fun hs => ((h.each id).unknown hs).2.2.2 }
  · rw [hsessions, List.mem_append, List.mem_singleton] at he
    obtain he | rfl := he
    · exact .inr he
    · exact .inl rfl
  · exact
      { listed := fun _ => ⟨hstored ▸ hin, (hnone _ rfl).trans hdel, hknown⟩
        left := fun _ _ => .inl hlisted
        unlisted := fun _ _ hs => absurd hs hknown
        flag := fun hset e he heq => by
          rw [hsessions, List.mem_append, List.mem_singleton] at he
          obtain he | rfl := he
          · exact absurd (heq ▸ List.mem_map_of_mem he) hunlisted
          · exact (hruns hset).imp_right Eq.symm
        apart := fun _ => (hnone _ rfl).trans hstop
        leaves := fun hl => absurd (hstay.symm.trans hl) Bool.false_ne_true
        polled := fun _ => hstored ▸ hin
        asked := fun _ => hknown
        arrives := fun _ _ => hstored ▸ hin
        starts := fun _ => hstored ▸ hin }

/-- A session is taken off the list. -/
theorem Ordered.unlists (h : s.Ordered) (hinbox : s.inbox = .stopped i :: rest) :
    ((s.taken rest).arrive row (.stopped i)).Ordered := by
  have hi := h.each i
  generalize ht : (s.taken rest).arrive row (.stopped i) = t
  have hsessions : t.sessions = s.sessions.filter fun e => e.id != i := by rw [← ht]; rfl
  have hsince : t.since = s.since := by rw [← ht]; rfl
  have hids : ∀ id, id ∈ t.ids ↔ id ∈ s.ids ∧ id ≠ i := by
    intro id
    change id ∈ t.sessions.map Session.id ↔ _
    rw [hsessions, List.mem_map]
    constructor
    · rintro ⟨e, he, rfl⟩
      obtain ⟨he, hne⟩ := List.mem_filter.mp he
      exact ⟨List.mem_map_of_mem he, bne_iff_ne.mp hne⟩
    · rintro ⟨hin, hne⟩
      obtain ⟨e, he, rfl⟩ := List.mem_map.mp hin
      exact ⟨e, List.mem_filter.mpr ⟨he, bne_iff_ne.mpr hne⟩, rfl⟩
  have hstops : s.inbox.any (Msg.stops i) = true := by
    rw [hinbox, List.any_cons]
    exact Bool.or_eq_true_iff.mpr (.inl (beq_self_eq_true i))
  have hknown : s.since i ≠ none := hi.asked (by rw [asking, hstops, Bool.or_true])
  obtain ⟨hnone, hnot⟩ := hi.leaves (by rw [leaving, hstops, Bool.or_true])
  have hnot' : t.starting i = false := by
    rw [← ht]
    exact hnot
  have hgone : i ∉ t.ids := fun hin => ((hids i).mp hin).2 rfl
  refine h.about i (by rw [← ht]; rfl) ?_ (by rw [← ht]; exact h.storedOnce)
    (h.reads.same (by rw [← ht]; rfl) ?_ ?_) (fun id hne => ?_) (fun e he => ?_) ?_
  · change (t.sessions.map Session.id).Nodup
    rw [hsessions]
    exact h.once.sublist (List.filter_sublist.map _)
  · rw [← ht]
    exact (reads_taken hinbox).1
  · rw [← ht]
    exact (reads_taken hinbox).2
  · rw [← ht]
    exact
      { calls := (SameBut.refl _).cons (beq_about hne)
        inbox := by
          rw [hinbox]
          exact SameBut.tail _ (beq_about hne)
        stored := Iff.rfl
        handle := rfl
        ids := by
          rw [ht, hids]
          exact and_iff_left hne.symm
        since := Iff.rfl }
  · rw [hsessions] at he
    exact .inr (List.mem_filter.mp he).1
  · have hdel : t.deleting i = true := by
      rw [← ht]
      exact Bool.or_eq_true_iff.mpr (.inl (beq_self_eq_true _))
    exact
      { listed := fun hin => absurd hin hgone
        left := fun _ _ => .inr hdel
        unlisted := fun _ _ hs => absurd (hsince ▸ hs) hknown
        flag := fun _ e he heq => absurd (heq ▸ List.mem_map_of_mem he) hgone
        apart := fun hs => absurd (hnot'.symm.trans hs) Bool.false_ne_true
        leaves := fun _ => ⟨by rw [← ht]; exact hnone, hnot'⟩
        polled := fun hp => absurd (by rw [← ht]; exact hnone) hp
        asked := fun _ => hsince ▸ hknown
        arrives := fun _ hs => absurd (hsince ▸ hs) hknown
        starts := fun hs => absurd (hnot'.symm.trans hs) Bool.false_ne_true }

/-- The answer of `MonitorCreateSession` arrives. -/
theorem Ordered.created (h : s.Ordered) (hinbox : s.inbox = .created i :: rest)
    (hfits : s.since i = none) : ((s.taken rest).arrive row (.created i)).Ordered := by
  refine h.lists hinbox rfl (fun id hne => beq_about hne) (beq_self_eq_true i) hfits
    (some (.start i)) (by simp) rfl rfl rfl rfl rfl rfl (fun id => lists_since _ _ id) fun _ => .inr ?_
  exact Bool.or_eq_true_iff.mpr (.inl (Bool.or_eq_true_iff.mpr (.inl (beq_self_eq_true i))))

/-- `adoptSession`. -/
theorem Ordered.adopts (h : s.Ordered) (hinbox : s.inbox = .bound i :: rest)
    (hfits : (i ∈ s.ids ∨ s.since i = none) ∧ s.Runs i) :
    ((s.taken rest).arrive row (.bound i)).Ordered := by
  have hruns : s.init.settling = false → s.removing i = true ∨ s.target i = true := by
    intro hset
    refine hfits.2.resolve_left fun hs => ?_
    rw [hset] at hs
    cases hs
  by_cases hid : i ∈ s.ids
  · have hany : s.sessions.any (fun e => e.id == i) = true := by
      obtain ⟨e, he, heq⟩ := List.mem_map.mp hid
      exact List.any_eq_true.mpr ⟨e, he, beq_iff_eq.mpr heq⟩
    have ht : (s.taken rest).arrive row (.bound i) =
        (s.taken rest).lists (markRunning s.sessions i true) :=
      congrArg (s.taken rest).lists (if_pos hany)
    have hids : ((s.taken rest).lists (markRunning s.sessions i true)).ids = s.ids :=
      markRunning_ids _ _ _
    have hsince : ∀ id, ((s.taken rest).lists (markRunning s.sessions i true)).since id = none ↔
        s.since id = none := by
      intro id
      rw [lists_since, markRunning_ids]
      exact and_iff_left_of_imp fun hs => ((h.each id).unknown hs).2.2.2
    have hknown : s.since i ≠ none := ((h.each i).listed hid).2.2
    rw [ht]
    refine h.about i rfl (hids ▸ h.once) h.storedOnce
      (h.reads.same rfl (reads_taken hinbox).1 (reads_taken hinbox).2) (fun id hne => ?_)
      (fun e he => (mem_markRunning he).imp And.left And.right) ?_
    · exact
        { calls := SameBut.refl _
          inbox := by
            rw [hinbox]
            exact SameBut.tail _ (beq_about hne)
          stored := Iff.rfl
          handle := rfl
          ids := by rw [hids]
          since := hsince id }
    · have hstops : rest.any (Msg.stops i) = s.inbox.any (Msg.stops i) := by
        rw [hinbox]
        rfl
      have hi := h.each i
      obtain ⟨hstored, hdel, -⟩ := hi.listed hid
      have hremoving : ((s.taken rest).lists (markRunning s.sessions i true)).removing i =
          s.removing i := congrArg (s.calls.any (Call.removes i) || ·) hstops
      have hleaving : ((s.taken rest).lists (markRunning s.sessions i true)).leaving i =
          s.leaving i := congrArg (s.calls.any (Call.leaves i) || ·) hstops
      exact
        { listed := fun _ => ⟨hstored, hdel, fun hs => hknown ((hsince i).mp hs)⟩
          left := fun _ _ => .inl (hids ▸ hid)
          unlisted := fun _ _ hs => absurd ((hsince i).mp hs) hknown
          flag := fun hset e he heq => by
            obtain ⟨-, hrun⟩ | ⟨hne, -⟩ := mem_markRunning he
            · rw [hremoving, hrun]
              exact (hruns hset).imp_right Eq.symm
            · exact absurd heq hne
          apart := hi.apart
          leaves := fun hl => hi.leaves (hleaving ▸ hl)
          polled := hi.polled
          asked := fun _ hs => hknown ((hsince i).mp hs)
          arrives := fun _ _ => hstored
          starts := hi.starts }
  · have hany : s.sessions.any (fun e => e.id == i) = false := by
      rw [Bool.eq_false_iff]
      intro hany
      obtain ⟨e, he, heq⟩ := List.any_eq_true.mp hany
      exact hid (List.mem_map.mpr ⟨e, he, beq_iff_eq.mp heq⟩)
    have ht : (s.taken rest).arrive row (.bound i) =
        (s.taken rest).lists (s.sessions ++ [{ sessionFromBackend i [] with running := true }]) :=
      congrArg (s.taken rest).lists (if_neg (Bool.eq_false_iff.mp hany))
    rw [ht]
    refine h.lists hinbox rfl (fun id hne => beq_about hne) (beq_self_eq_true i)
      (hfits.1.resolve_left hid) none (by simp) rfl rfl rfl rfl rfl rfl
      (fun id => lists_since _ _ id) fun hset => ?_
    have hstops : rest.any (Msg.stops i) = s.inbox.any (Msg.stops i) := by
      rw [hinbox]
      rfl
    refine (hruns hset).imp_left fun hr => ?_
    unfold removing at hr ⊢
    rw [← hstops] at hr
    exact hr

/-! ## The startup goes on -/

/-- The startup asks for the next thing, or ends. -/
theorem Ordered.turns (h : s.Ordered) {m : Msg} (hinbox : s.inbox = m :: rest) {k : Nat}
    (hm : m.stage = some k) (habout : ∀ id, m.about id = false) (new : Option Call)
    (hcalls : t.calls = new.toList ++ s.calls) (hbox : t.inbox = rest)
    (hstored : t.stored = s.stored) (hhandle : t.handle = s.handle)
    (hsessions : t.sessions = s.sessions) (hsince : t.since = s.since)
    (hnew : ∀ c ∈ new, ∀ id, c.about id = false) (hstage : (new.bind Call.stage) = t.init.stage)
    (hloading : ∀ todo loaded, t.init = .data todo loaded → (loaded.map Session.id ++ todo).Nodup)
    (hnot : s.init.settling = false)
    (hready : t.init.ready = true → ∀ id ∈ s.stored, s.since id = none → s.arriving id = true) :
    t.Ordered := by
  have hids : t.ids = s.ids := congrArg (List.map Session.id) hsessions
  obtain ⟨-, hnone⟩ := h.reads.answered hinbox hm
  refine h.plain (fun id => ?_) hids hstored ?_ (fun hr => .inr (hready hr)) fun _ e he => ?_
  · exact
      { calls := by
          rw [hcalls]
          exact (SameBut.refl _).prepend fun c hc => hnew c (Option.mem_toList.mp hc) id
        inbox := by
          rw [hbox, hinbox]
          exact SameBut.tail m (habout id)
        stored := by rw [hstored]
        handle := by rw [hhandle]
        ids := by rw [hids]
        since := by rw [hsince] }
  · refine { stages := ?_, loading := hloading, sent := fun ids hin => ?_ }
    · unfold stages at hnone ⊢
      rw [hcalls, hbox, List.filterMap_append, List.append_assoc, hnone, List.append_nil, ← hstage]
      cases new with
      | none => exact List.Subperm.refl _
      | some c => cases hc : c.stage <;> simp [hc]
    · rw [hbox] at hin
      exact h.reads.sent ids (hinbox ▸ List.mem_cons_of_mem m hin)
  · rw [hsessions] at he
    exact (h.each e.id).flag hnot e he rfl

theorem settling_of_stage {init : Init} {k : Nat} (h : init.stage = some k) (hk : k ≠ 3) :
    init.settling = false := by
  cases init with
  | running => exact absurd (Option.some.inj h).symm hk
  | _ => rfl

/-- The answer of `MonitorLoadSessions` arrives. -/
theorem Ordered.read (h : s.Ordered) {ids : List Id} (hinbox : s.inbox = .sessions ids :: rest)
    (hfits : s.Fits row (.sessions ids)) :
    ((s.taken rest).arrive row (.sessions ids)).Ordered := by
  have hnot : s.init.settling = false :=
    settling_of_stage (h.reads.answered hinbox rfl).1 (by decide)
  have hnodup : ids.Nodup := h.reads.sent ids (hinbox ▸ List.mem_cons_self)
  cases ids with
  | nil =>
      refine h.turns hinbox rfl (fun _ => rfl) none rfl rfl rfl rfl rfl rfl (by simp) rfl ?_ hnot
        fun _ => hfits rfl
      rintro todo loaded ⟨⟩
  | cons id ids =>
      refine h.turns hinbox rfl (fun _ => rfl) (some (.loadData id)) rfl rfl rfl rfl rfl rfl
        (by rintro c ⟨⟩ _; rfl) rfl ?_ hnot fun hr => absurd hr Bool.false_ne_true
      rintro todo loaded ⟨⟩
      exact hnodup

/-- The list is set to what was loaded. -/
theorem Ordered.sets (h : s.Ordered) {m : Msg} (hinbox : s.inbox = m :: rest)
    (hm : m.stage = some 2) (habout : ∀ id, m.about id = false) {loaded : List Session}
    (honce : (loaded.map Session.id).Nodup) (hreplaces : s.Replaces loaded)
    (hcalls : t.calls = .running :: s.calls) (hbox : t.inbox = rest) (hstored : t.stored = s.stored)
    (hhandle : t.handle = s.handle) (hinit : t.init = .running) (hsessions : t.sessions = loaded)
    (hsince : ∀ id, t.since id = none ↔ s.since id = none ∧ id ∉ loaded.map Session.id) :
    t.Ordered := by
  obtain ⟨hloaded, hcovers⟩ := hreplaces
  obtain ⟨-, hnone⟩ := h.reads.answered hinbox hm
  have hids : t.ids = loaded.map Session.id := congrArg (List.map Session.id) hsessions
  have hcall : ∀ p : Call → Bool, p .running = false → t.calls.any p = s.calls.any p := by
    intro p hp
    rw [hcalls, List.any_cons, hp, Bool.false_or]
  have hmsg : ∀ (p : Msg → Bool) (id : Id), (∀ m, m.about id = false → p m = false) →
      t.inbox.any p = s.inbox.any p := by
    intro p id hp
    rw [hbox, hinbox, List.any_cons, hp m (habout id), Bool.false_or]
  have hstops : ∀ id, t.inbox.any (Msg.stops id) = s.inbox.any (Msg.stops id) := fun id =>
    hmsg _ id fun m hm => by cases m <;> first | rfl | exact hm
  refine
    { once := hids ▸ honce
      storedOnce := hstored ▸ h.storedOnce
      reads :=
        { stages := ?_
          loading := fun todo loaded hdata => by rw [hinit] at hdata; cases hdata
          sent := fun ids hin => h.reads.sent ids ?_ }
      each := fun id => ?_ }
  · unfold stages at hnone ⊢
    have hrunning : Call.running.stage = some 3 := rfl
    rw [hcalls, hbox, hinit, List.filterMap_cons_some hrunning, List.cons_append, hnone]
    exact List.Subperm.refl _
  · rw [hbox] at hin
    exact hinbox ▸ List.mem_cons_of_mem m hin
  · have hi := h.each id
    have hdeleting : t.deleting id = s.deleting id := hcall _ rfl
    have hstarting : t.starting id = s.starting id := hcall _ rfl
    have hstopping : t.stopping id = s.stopping id := hcall _ rfl
    have hleaving : t.leaving id = s.leaving id := by
      unfold leaving
      rw [hcall _ rfl, hstops]
    have hasking : t.asking id = s.asking id := by
      unfold asking
      rw [hcall _ rfl, hstops]
    have harriving : t.arriving id = s.arriving id := by
      unfold arriving
      rw [hcall _ rfl, hmsg _ id fun m hm => by cases m <;> first | rfl | exact hm]
    exact
      { listed := fun hid => by
          rw [hids] at hid
          obtain ⟨l, hl, rfl⟩ := List.mem_map.mp hid
          obtain ⟨hin, hdel, -, -⟩ := hloaded l hl
          exact ⟨hstored ▸ hin, hdeleting.trans hdel, fun hs => ((hsince _).mp hs).2 hid⟩
        left := fun hin hs => by
          rw [hids, hdeleting]
          obtain hid | hdel | ⟨hnever, -⟩ := hcovers id (hstored ▸ hin)
          · exact .inl hid
          · exact .inr hdel
          · exact .inl (not_not.mp fun hout => hs ((hsince id).mpr ⟨hnever, hout⟩))
        unlisted := fun _ hin hs => by
          obtain ⟨hnever, hout⟩ := (hsince id).mp hs
          rw [harriving]
          obtain hid | hdel | ⟨-, harr⟩ := hcovers id (hstored ▸ hin)
          · exact absurd hid hout
          · exact absurd ((hi.unknown hnever).1.symm.trans hdel) Bool.false_ne_true
          · exact harr
        flag := fun hset => by
          rw [hinit] at hset
          cases hset
        apart := fun hs => hstopping.trans (hi.apart (hstarting ▸ hs))
        leaves := fun hl => by
          rw [hhandle, hstarting]
          exact hi.leaves (hleaving ▸ hl)
        polled := fun hp => hstored ▸ hi.polled (hhandle ▸ hp)
        asked := fun ha hs => hi.asked (hasking ▸ ha) ((hsince id).mp hs).1
        arrives := fun ha hs => hstored ▸ hi.arrives (harriving ▸ ha) ((hsince id).mp hs).1
        starts := fun hs => hstored ▸ hi.starts (hstarting ▸ hs) }

/-- The answer of `MonitorLoadSessionData` arrives. -/
theorem Ordered.loads (h : s.Ordered) {points : List Point}
    (hinbox : s.inbox = .data points :: rest) (hfits : s.Fits row (.data points)) :
    ((s.taken rest).arrive row (.data points)).Ordered := by
  obtain ⟨hstage, hnone⟩ := h.reads.answered hinbox rfl
  have hnot : s.init.settling = false := settling_of_stage hstage (by decide)
  change ((s.taken rest).loads points).Ordered
  unfold Mirror.loads
  cases hinit : s.init with
  | data todo loaded =>
      have hnodup := h.reads.loading todo loaded hinit
      rw [show (s.taken rest).init = .data todo loaded from hinit]
      match todo, hinit, hnodup with
      | [], hinit, hnodup =>
          refine h.plain (fun id => ?_) rfl rfl ?_ .inl fun hset e he => (h.each e.id).flag hset e he rfl
          · exact
              { calls := SameBut.refl _
                inbox := by
                  rw [hinbox]
                  exact SameBut.tail _ rfl
                stored := Iff.rfl
                handle := rfl
                ids := Iff.rfl
                since := Iff.rfl }
          · exact h.reads.same rfl (reads_taken hinbox).1 (reads_taken hinbox).2
      | [id], hinit, hnodup =>
          simp only [Fits, hinit] at hfits
          refine h.sets hinbox rfl (fun _ => rfl) ?_ hfits rfl rfl rfl rfl rfl rfl
            fun id => lists_since _ _ id
          rw [List.map_append]
          exact hnodup
      | id :: next :: todo, hinit, hnodup =>
          refine h.turns hinbox rfl (fun _ => rfl) (some (.loadData next)) rfl rfl rfl rfl rfl rfl
            (by rintro c ⟨⟩ _; rfl) rfl ?_ hnot fun hr => absurd hr Bool.false_ne_true
          rintro todo' loaded' ⟨⟩
          rw [List.map_append, List.append_assoc]
          exact hnodup
  | _ => simp [hinit, Init.stage] at hstage

/-- The answer of `MonitorRunning` arrives. -/
theorem Ordered.reconciles (h : s.Ordered) {live : Id → Bool}
    (hinbox : s.inbox = .running live :: rest) (hfits : s.Fits row (.running live)) :
    ((s.taken rest).arrive row (.running live)).Ordered := by
  obtain ⟨hstage, hnone⟩ := h.reads.answered hinbox rfl
  have hready : s.init.ready = true := by
    cases hinit : s.init with
    | running => rfl
    | _ => simp [hinit, Init.stage] at hstage
  generalize hresumed : s.toResume row live = resumed
  have hlisted : ∀ id ∈ resumed, id ∈ s.ids := by
    intro id hid
    rw [← hresumed] at hid
    unfold toResume at hid
    split at hid
    · obtain ⟨e, he, rfl⟩ := List.mem_map.mp hid
      exact List.mem_map_of_mem (List.mem_filter.mp he).1
    · cases hid
  change ((s.taken rest).reconcile row live).Ordered
  generalize ht : (s.taken rest).reconcile row live = t
  have hsessions : t.sessions = s.sessions.map fun e =>
      { e with running := live e.id || resumed.contains e.id } := by
    rw [← ht, ← hresumed]
    rfl
  have hcalls : t.calls = resumed.map Call.start ++ s.calls := by
    rw [← ht, ← hresumed]
    rfl
  have hbox : t.inbox = rest := by rw [← ht]; rfl
  have hstored : t.stored = s.stored := by rw [← ht]; rfl
  have hhandle : t.handle = s.handle := by rw [← ht]; rfl
  have hsince : t.since = s.since := by rw [← ht]; rfl
  have hinit : t.init = .done := by rw [← ht]; rfl
  have hids : t.ids = s.ids := by
    change t.sessions.map Session.id = _
    rw [hsessions, List.map_map]
    rfl
  have hcall : ∀ p : Call → Bool, (∀ id, p (.start id) = false) → t.calls.any p = s.calls.any p := by
    intro p hp
    have hfalse : (resumed.map Call.start).any p = false := by
      rw [List.any_map]
      exact List.any_eq_false.mpr fun id _ => by simp [hp id]
    rw [hcalls, List.any_append, hfalse, Bool.false_or]
  have hmsg : ∀ (p : Msg → Bool), p (.running live) = false → t.inbox.any p = s.inbox.any p := by
    intro p hp
    rw [hbox, hinbox, List.any_cons, hp, Bool.false_or]
  have hstarting : ∀ id, t.starting id = (resumed.contains id || s.starting id) := by
    intro id
    unfold starting
    rw [hcalls, List.any_append, List.any_map]
    congr 1
    rw [List.contains_eq_any_beq]
    exact congrArg resumed.any (funext fun j => Bool.beq_comm)
  refine
    { once := hids ▸ h.once
      storedOnce := hstored ▸ h.storedOnce
      reads :=
        { stages := ?_
          loading := fun todo loaded hdata => by rw [hinit] at hdata; cases hdata
          sent := fun ids hin => h.reads.sent ids ?_ }
      each := fun id => ?_ }
  · have hnil : (resumed.map Call.start).filterMap Call.stage = [] := by
      rw [List.filterMap_map]
      exact List.filterMap_eq_nil_iff.mpr fun _ _ => rfl
    unfold stages at hnone ⊢
    rw [hcalls, hbox, List.filterMap_append, hnil, List.nil_append, hnone]
    exact List.nil_subperm
  · rw [hbox] at hin
    exact hinbox ▸ List.mem_cons_of_mem _ hin
  · have hi := h.each id
    have hdeleting : t.deleting id = s.deleting id := hcall _ fun _ => rfl
    have hstopping : t.stopping id = s.stopping id := hcall _ fun _ => rfl
    have hremoving : t.removing id = s.removing id := by
      unfold removing
      rw [hcall _ fun _ => rfl, hmsg _ rfl]
    have hleaving : t.leaving id = s.leaving id := by
      unfold leaving
      rw [hcall _ fun _ => rfl, hmsg _ rfl]
    have harriving : t.arriving id = s.arriving id := by
      unfold arriving
      rw [hcall _ fun _ => rfl, hmsg _ rfl]
    -- what is resumed is neither stopped nor removed
    have hresume : resumed.contains id = true →
        id ∈ s.ids ∧ s.stopping id = false ∧ s.removing id = false := by
      intro hin
      have hid : id ∈ resumed := List.contains_iff_mem.mp hin
      obtain ⟨e, he, rfl⟩ := List.mem_map.mp (hlisted id hid)
      have hfit := hfits e he
      rw [hresumed, if_pos hid] at hfit
      exact ⟨hlisted _ hid, hfit⟩
    exact
      { listed := fun hid => by
          rw [hstored, hdeleting, hsince]
          exact hi.listed (hids ▸ hid)
        left := fun hin hs => by
          rw [hids, hdeleting]
          exact hi.left (hstored ▸ hin) (hsince ▸ hs)
        unlisted := fun _ hin hs => by
          rw [harriving]
          exact hi.unlisted hready (hstored ▸ hin) (hsince ▸ hs)
        flag := fun _ e he heq => by
          rw [hsessions] at he
          obtain ⟨e', he', rfl⟩ := List.mem_map.mp he
          obtain rfl : e'.id = id := heq
          have hfit := hfits e' he'
          rw [hresumed] at hfit
          unfold target
          rw [hremoving, hstarting, hstopping, hhandle]
          cases hin : resumed.contains e'.id with
          | true => exact .inr (by simp)
          | false =>
              rw [if_neg fun hmem => by rw [List.contains_iff_mem.mpr hmem] at hin; cases hin] at hfit
              refine hfit.imp_right fun hlive => ?_
              simp only [Bool.or_false, Bool.false_or]
              exact hlive
        apart := fun hs => by
          rw [hstopping]
          rw [hstarting, Bool.or_eq_true] at hs
          exact hs.elim (fun hin => (hresume hin).2.1) hi.apart
        leaves := fun hl => by
          rw [hleaving] at hl
          obtain ⟨hgone, hnot⟩ := hi.leaves hl
          rw [hhandle, hstarting, hnot, Bool.or_false, Bool.eq_false_iff]
          refine ⟨hgone, fun hin => ?_⟩
          obtain ⟨hid, -, hrem⟩ := hresume hin
          rw [leaving_false hrem (hi.listed hid).2.1] at hl
          cases hl
        polled := fun hp => hstored ▸ hi.polled (hhandle ▸ hp)
        asked := fun ha => by
          rw [hsince]
          unfold asking at ha
          rw [hmsg _ rfl, hcalls, List.any_append, Bool.or_assoc, Bool.or_eq_true] at ha
          obtain hin | ha := ha
          · obtain ⟨c, hc, hlist⟩ := List.any_eq_true.mp hin
            obtain ⟨j, hj, rfl⟩ := List.mem_map.mp hc
            obtain rfl : j = id := beq_iff_eq.mp hlist
            exact (hi.listed (hlisted j hj)).2.2
          · exact hi.asked ha
        arrives := fun ha hs => hstored ▸ hi.arrives (harriving ▸ ha) (hsince ▸ hs)
        starts := fun hs => by
          rw [hstarting, Bool.or_eq_true] at hs
          rw [hstored]
          exact hs.elim (fun hin => (hi.listed (hresume hin).1).1) hi.starts }

/-! ## The other steps -/

/-- The window makes a call that is about no session yet. -/
theorem Ordered.asks (h : s.Ordered) {c : Call} (habout : ∀ id, c.about id = false)
    (hstage : c.stage = none) : (s.calls_ c).Ordered := by
  refine h.plain (fun id => ?_) rfl rfl ?_ .inl fun hset e he => (h.each e.id).flag hset e he rfl
  · exact
      { calls := (SameBut.refl _).cons (habout id)
        inbox := SameBut.refl _
        stored := Iff.rfl
        handle := rfl
        ids := Iff.rfl
        since := Iff.rfl }
  · refine h.reads.same rfl ?_ fun _ hin => hin
    rw [stages_cons hstage rfl]
    exact List.Subperm.refl _

/-- `initFromBackend` begins. -/
theorem Ordered.begins (h : s.Ordered) (hinit : s.init = .waiting) :
    ({ s with init := .sessions }.calls_ .loadSessions).Ordered := by
  have hnot : s.init.settling = false := by rw [hinit]; rfl
  refine h.plain (fun id => ?_) rfl rfl ?_ (fun hr => absurd hr Bool.false_ne_true)
    fun _ e he => (h.each e.id).flag hnot e he rfl
  · exact
      { calls := (SameBut.refl _).cons rfl
        inbox := SameBut.refl _
        stored := Iff.rfl
        handle := rfl
        ids := Iff.rfl
        since := Iff.rfl }
  · refine { stages := ?_, loading := by rintro _ _ ⟨⟩, sent := h.reads.sent }
    have hnone := h.reads.stages
    rw [hinit] at hnone
    exact List.subperm_cons _ |>.mpr hnone

/-- The loops and the points are others. -/
theorem Ordered.moves (h : s.Ordered) {points queued : Id → List Point} {loops : List Loop}
    {nextPoint : Nat} : ({ s with points, queued, loops, nextPoint } : Mirror).Ordered :=
  h.plain (fun _ => ⟨SameBut.refl _, SameBut.refl _, Iff.rfl, rfl, Iff.rfl, Iff.rfl⟩) rfl rfl
    (h.reads.same rfl (List.Subperm.refl _) fun _ hin => hin) .inl
    fun hset e he => (h.each e.id).flag hset e he rfl

/-- Samples are sent. -/
theorem Ordered.pushes (h : s.Ordered) (id : Id) (points : List Point) :
    (s.sends (.samples id points)).Ordered := by
  refine h.plain (fun id => ?_) rfl rfl ?_ .inl fun hset e he => (h.each e.id).flag hset e he rfl
  · exact
      { calls := SameBut.refl _
        inbox := (SameBut.refl _).append rfl
        stored := Iff.rfl
        handle := rfl
        ids := Iff.rfl
        since := Iff.rfl }
  · refine h.reads.same rfl ?_ fun ids hin => ?_
    · have hnil : [Msg.samples id points].filterMap Msg.stage = [] := rfl
      unfold stages sends
      rw [List.filterMap_append, hnil, List.append_nil]
    · simpa [sends] using hin

/-- **A step keeps the list in order.** -/
theorem Ordered.step {a : Act} (h : s.Ordered) (hok : s.Orderly row a)
    (hs : s.step row a = some t) : t.Ordered := by
  cases a with
  | init =>
      simp only [Mirror.step] at hs
      split at hs
      · rename_i hinit
        obtain rfl := Option.some.inj hs
        exact h.begins hinit
      · cases hs
  | startPolling | bindPreset =>
      obtain rfl := Option.some.inj hs
      exact h.asks (fun _ => rfl) rfl
  | resumeSession id =>
      obtain rfl := Option.some.inj hs
      exact h.resume hok
  | stopPolling id =>
      obtain rfl := Option.some.inj hs
      exact h.stop hok
  | removeSession id =>
      obtain rfl := Option.some.inj hs
      exact h.remove hok
  | deliver =>
      simp only [Mirror.step] at hs
      split at hs
      · cases hs
      · rename_i m rest hinbox
        obtain rfl := Option.some.inj hs
        have hfits : s.Fits row m := hok m (by rw [hinbox]; rfl)
        cases m with
        | samples id points => exact h.samples hinbox hfits
        | created id => exact h.created hinbox hfits
        | bound id => exact h.adopts hinbox hfits
        | stopped id => exact h.unlists hinbox
        | sessions ids => exact h.read hinbox hfits
        | data points => exact h.loads hinbox hfits
        | running live => exact h.reconciles hinbox hfits
  | store c id =>
      simp only [Mirror.step] at hs
      split at hs
      · rename_i hnew
        split at hs
        rotate_right
        · cases hs
        all_goals
          obtain rfl := Option.some.inj hs
          exact h.stores hnew.1 hnew.2 (fun _ => rfl) (fun _ hne => beq_about hne) rfl
            (beq_self_eq_true id) rfl rfl rfl
      · cases hs
  | exec c => exact h.exec hok hs
  | query id points =>
      simp only [Mirror.step] at hs
      split at hs
      · rename_i hc
        obtain rfl := Option.some.inj hs
        exact h.answers hc.1 rfl rfl (fun _ => rfl) (fun _ => rfl) (by rintro ids ⟨⟩)
      · cases hs
  | round n _ | ends n =>
      simp only [Mirror.step] at hs
      split at hs
      · cases hs
      · obtain rfl := Option.some.inj hs
        exact h.moves
  | push n =>
      simp only [Mirror.step] at hs
      split at hs
      · cases hs
      · obtain rfl := Option.some.inj hs
        exact h.moves.pushes _ _
  | flush id =>
      simp only [Mirror.step] at hs
      split at hs
      · obtain rfl := Option.some.inj hs
        exact h.moves
      · cases hs

end Mirror

end SnmpLens.Polling
