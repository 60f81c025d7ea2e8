import SnmpLens.Polling.Points

/-!
# The list mirrors the scheduler

What arrives adds its points once, and what replaces the list has them already. A run of which every
step finds what it counts on settles with the sessions Go stores, each with its flag and its points.
Where a step does not, it need not: a session is stopped while its loop has a round queued, the
round is pushed, and the samples set the flag again.
-/

namespace SnmpLens.Polling

open Machine

namespace Mirror

variable {row : Id → Row} {s t : Mirror} {id i : Id}

/-! ## What arrives -/

variable {rest : List Msg}

theorem coming_taken {m : Msg} (hinbox : s.inbox = m :: rest) :
    s.coming = m.points ++ (s.taken rest).coming := by
  unfold coming taken
  rw [hinbox, List.flatMap_cons, List.append_assoc]

theorem Tidy.takes (h : s.Tidy row) {m : Msg} (hinbox : s.inbox = m :: rest) :
    (s.taken rest).Tidy row := by
  have hcoming : (s.taken rest).coming.Subperm s.coming := by
    rw [coming_taken hinbox]
    exact (List.sublist_append_right _ _).subperm
  exact h.edits rfl rfl rfl rfl rfl hcoming h.loaded
    (fun points hin => h.sent points (hinbox ▸ List.mem_cons_of_mem m hin))
    fun e he => .inl ⟨e, he, rfl, rfl, rfl⟩

/-- The buffer ends with the last of what arrived since the session was listed. -/
theorem received_results (results points : List Point) (cap : Nat) :
    (if cap < (results ++ points).length then (results ++ points).rtake cap
      else results ++ points) <:+ results ++ points ∧
    ∀ given : List Point, given.rtake cap <:+ results → (given ++ points).rtake cap <:+
      if cap < (results ++ points).length then (results ++ points).rtake cap
      else results ++ points := by
  split
  · rename_i hlong
    refine ⟨rtake_suffix _ _, fun given h => ?_⟩
    refine List.suffix_of_suffix_length_le (rtake_append_suffix points h) (rtake_suffix _ _) ?_
    rw [length_rtake, length_rtake]
    omega
  · exact ⟨List.suffix_refl _, fun given h => rtake_append_suffix points h⟩

/-- Samples arrive. -/
theorem Tidy.samples (h : s.Tidy row) {points : List Point}
    (hinbox : s.inbox = .samples i points :: rest) :
    ((s.taken rest).arrive row (.samples i points)).Tidy row := by
  have hcoming : s.coming = points ++ (s.taken rest).coming := coming_taken hinbox
  have hfetched := h.coming
  rw [hcoming] at hfetched
  obtain ⟨-, -, happart⟩ := List.nodup_append.mp hfetched.1
  refine (h.takes hinbox).edits rfl rfl rfl rfl rfl (List.Subperm.refl _) (h.takes hinbox).loaded
    (h.takes hinbox).sent fun e' he' => ?_
  obtain ⟨e, he, rfl⟩ := List.mem_map.mp he'
  have hold := h.holds e he
  by_cases heq : e.id = i
  · rw [if_pos heq]
    subst heq
    obtain ⟨hend, hlast⟩ := received_results e.results points (row e.id).cap
    have hall : s.Fetched (e.results ++ points) := by
      refine ⟨List.nodup_append.mpr ⟨hold.fetched.1, ?_, ?_⟩, fun p hp => ?_⟩
      · exact (List.nodup_append.mp hfetched.1).1
      · rintro p hp q hq rfl
        exact hold.apart p hp (hcoming ▸ List.mem_append_left _ hq)
      · obtain hp | hp := List.mem_append.mp hp
        · exact hold.fetched.2 p hp
        · exact hfetched.2 p (List.mem_append_left _ hp)
    refine .inr { fetched := hall.subperm hend.sublist.subperm, apart := ?_, since := ?_ }
    · intro p hp hin
      obtain hp | hp := List.mem_append.mp (hend.subset hp)
      · exact hold.apart p hp (hcoming ▸ List.mem_append_right _ hin)
      · exact happart p hp p hin rfl
    · intro given hgiven
      change (if e.id = e.id then (s.since e.id).map (· ++ points) else _) = some given at hgiven
      rw [if_pos rfl] at hgiven
      obtain ⟨before, hbefore, rfl⟩ := Option.map_eq_some_iff.mp hgiven
      exact hlast before (hold.since before hbefore)
  · rw [if_neg heq]
    exact .inl ⟨e, he, rfl, rfl, if_neg heq⟩

theorem lists_new (s : Mirror) (sessions : List Session) (h : id ∈ sessions.map Session.id) :
    (s.lists sessions).since id = some ((s.since id).getD []) := if_pos h

theorem lists_known (s : Mirror) (sessions : List Session) (h : s.since id ≠ none) :
    (s.lists sessions).since id = s.since id := by
  change (if id ∈ sessions.map Session.id then some ((s.since id).getD []) else s.since id) = _
  split
  · obtain ⟨points, hpoints⟩ := Option.ne_none_iff_exists'.mp h
    rw [hpoints]
    rfl
  · rfl

/-- Sessions are put on the list, or kept there. -/
theorem Tidy.lists (h : s.Tidy row) (hknown : ∀ e ∈ s.sessions, s.since e.id ≠ none)
    {sessions : List Session} (hfrom : ∀ e' ∈ sessions,
      (∃ e ∈ s.sessions, e'.id = e.id ∧ e'.results = e.results) ∨
        (e'.results = [] ∧ s.since e'.id = none)) : (s.lists sessions).Tidy row := by
  refine h.edits rfl rfl rfl rfl rfl (List.Subperm.refl _) h.loaded h.sent fun e' he' => ?_
  obtain ⟨e, he, hid, hresults⟩ | ⟨hempty, hnone⟩ := hfrom e' he'
  · exact .inl ⟨e, he, hid, hresults, lists_known s sessions (hknown e he)⟩
  · refine .inr (Holds.empty hempty fun points hpoints => ?_)
    have hnew := (lists_new s sessions (List.mem_map_of_mem he')).symm.trans hpoints
    rw [hnone] at hnew
    exact (Option.some.inj hnew).symm

/-- The list is set to what was loaded. -/
theorem Tidy.sets (h : s.Tidy row) (hordered : s.Ordered) {m : Msg} (hinbox : s.inbox = m :: rest)
    {loaded : List Session} (hfetched : ∀ l ∈ loaded, s.Fetched l.results)
    (hreplaces : s.Replaces loaded) :
    ({ s.taken rest with init := .running }.lists loaded).Tidy row := by
  refine (h.takes hinbox).edits rfl rfl rfl rfl rfl (List.Subperm.refl _) (by rintro _ _ ⟨⟩)
    (h.takes hinbox).sent fun l hl => .inr ?_
  obtain ⟨hstored, hdel, hends, hapart⟩ := hreplaces.1 l hl
  refine
    { fetched := hfetched l hl
      apart := fun p hp hin => ?_
      since := fun points hpoints => ?_ }
  · exact hapart p hp (coming_taken hinbox ▸ List.mem_append_right _ hin)
  · obtain rfl := Option.some.inj ((lists_new _ loaded (List.mem_map_of_mem hl)).symm.trans hpoints)
    change ((s.since l.id).getD []).rtake _ <:+ _
    cases hsince : s.since l.id with
    | none => simp
    | some given =>
        -- it was listed, and is not on its way out
        have hlisted : l.id ∈ s.ids := by
          refine ((hordered.each l.id).left hstored (by rw [hsince]; simp)).resolve_right fun hd => ?_
          rw [hdel] at hd
          cases hd
        obtain ⟨e, he, heq⟩ := List.mem_map.mp hlisted
        have hlast := (h.holds e he).since given (heq ▸ hsince)
        rw [heq] at hlast
        exact hlast.trans (hends e he heq)

/-- **What Go sent arrives.** -/
theorem Tidy.deliver (h : s.Tidy row) (hordered : s.Ordered) {m : Msg}
    (hinbox : s.inbox = m :: rest) (hfits : s.Fits row m) :
    ((s.taken rest).arrive row m).Tidy row := by
  have htaken := h.takes hinbox
  have hknown : ∀ e ∈ (s.taken rest).sessions, (s.taken rest).since e.id ≠ none := fun e he =>
    ((hordered.each e.id).listed (List.mem_map_of_mem he)).2.2
  cases m with
  | samples id points => exact h.samples hinbox
  | created id =>
      refine (htaken.lists hknown fun e he => ?_).calls_ _
      obtain he | he := List.mem_append.mp he
      · exact .inl ⟨e, he, rfl, rfl⟩
      · rw [List.mem_singleton.mp he]
        exact .inr ⟨rfl, hfits⟩
  | bound id =>
      refine htaken.lists hknown fun e he => ?_
      unfold adoptSession at he
      split at he
      · exact .inl (markRunning_results he)
      · rename_i hany
        obtain he | he := List.mem_append.mp he
        · exact .inl ⟨e, he, rfl, rfl⟩
        · rw [List.mem_singleton.mp he]
          refine .inr ⟨rfl, hfits.1.resolve_left fun hid => hany ?_⟩
          obtain ⟨e, he, heq⟩ := List.mem_map.mp hid
          exact List.any_eq_true.mpr ⟨e, he, beq_iff_eq.mpr heq⟩
  | stopped id => exact htaken.calls fun e he => ⟨e, (List.mem_filter.mp he).1, rfl, rfl⟩
  | sessions ids =>
      cases ids with
      | nil =>
          exact htaken.edits rfl rfl rfl rfl rfl (List.Subperm.refl _) (by rintro _ _ ⟨⟩)
            htaken.sent fun e he => .inl ⟨e, he, rfl, rfl, rfl⟩
      | cons id ids =>
          refine (htaken.edits rfl rfl rfl rfl rfl (List.Subperm.refl _) ?_
            htaken.sent fun e he => .inl ⟨e, he, rfl, rfl, rfl⟩ :
              ({ s.taken rest with init := .data (id :: ids) [] } : Mirror).Tidy row).calls_ _
          rintro _ _ ⟨⟩
          simp
  | data points =>
      have hpoints : s.Fetched points := h.sent points (hinbox ▸ List.mem_cons_self)
      change ((s.taken rest).loads points).Tidy row
      unfold Mirror.loads
      split
      · rename_i id loaded hinit
        change s.init = .data [id] loaded at hinit
        simp only [Fits, hinit] at hfits
        refine (h.sets hordered hinbox (fun l hl => ?_) hfits).calls_ _
        obtain hl | hl := List.mem_append.mp hl
        · exact h.loaded _ loaded hinit l hl
        · rw [List.mem_singleton.mp hl]
          exact hpoints
      · rename_i id next todo loaded hinit
        refine (htaken.edits rfl rfl rfl rfl rfl (List.Subperm.refl _) ?_ htaken.sent
          fun e he => .inl ⟨e, he, rfl, rfl, rfl⟩ : ({ s.taken rest with
            init := .data (next :: todo)
              (loaded ++ [sessionFromBackend id points]) } : Mirror).Tidy row).calls_ _
        rintro _ _ ⟨⟩ l hl
        obtain hl | hl := List.mem_append.mp hl
        · exact h.loaded _ loaded hinit l hl
        · rw [List.mem_singleton.mp hl]
          exact hpoints
      · exact htaken
  | running live =>
      refine htaken.edits rfl rfl rfl rfl rfl (List.Subperm.refl _) (by rintro _ _ ⟨⟩)
        htaken.sent fun e' he' => ?_
      obtain ⟨e, he, rfl⟩ := List.mem_map.mp he'
      exact .inl ⟨e, he, rfl, rfl, rfl⟩

/-! ## The loops go on -/

/-- The loop that is found, and no other, has changed. -/
theorem found {n : Nat} {p : Loop → Bool} {l : Loop}
    (hfind : s.loops.find? (fun l => l.number == n && p l) = some l) :
    l ∈ s.loops ∧ l.number = n ∧ p l = true := by
  have hl := List.find?_some hfind
  rw [Bool.and_eq_true, beq_iff_eq] at hl
  exact ⟨List.mem_of_find?_eq_some hfind, hl⟩

/-- Points that are fetched are other than those that were. -/
theorem Fetched.more {points : List Point} (h : s.Fetched points) (count : Nat)
    (hnext : t.nextPoint = s.nextPoint + count) :
    t.Fetched (points ++ List.range' s.nextPoint count) := by
  refine ⟨List.nodup_append.mpr ⟨h.1, List.nodup_range', ?_⟩, fun p hp => ?_⟩
  · rintro p hp q hq rfl
    exact Nat.lt_irrefl p (Nat.lt_of_lt_of_le (h.2 p hp) (List.mem_range'_1.mp hq).1)
  · rw [hnext]
    obtain hp | hp := List.mem_append.mp hp
    · exact Nat.lt_add_right _ (h.2 p hp)
    · exact (List.mem_range'_1.mp hp).2

/-- A round is fetched and queued. -/
theorem Tidy.round {n count : Nat} (h : s.Tidy row) (hs : s.step row (.round n count) = some t) :
    t.Tidy row := by
  simp only [Mirror.step] at hs
  split at hs
  · cases hs
  rename_i l hfind
  simp only [Bool.and_assoc] at hfind
  obtain ⟨hl, rfl, hidle⟩ := found hfind
  rw [Bool.and_eq_true, List.isEmpty_iff] at hidle
  obtain ⟨rest, hbefore, hafter⟩ := rounds_at hl h.numbers.1
  rw [hidle.1, List.nil_append] at hbefore
  obtain rfl := Option.some.inj hs
  generalize ht : ({ s with
      queued := fun i => if i = l.id then s.queued i ++ List.range' s.nextPoint count
        else s.queued i
      loops := s.onLoop l.number fun l => { l with round := List.range' s.nextPoint count }
      nextPoint := s.nextPoint + count } : Mirror) = t
  have hnext : t.nextPoint = s.nextPoint + count := by rw [← ht]
  have hlater : s.nextPoint ≤ t.nextPoint := hnext ▸ Nat.le_add_right _ _
  have hcoming : t.coming.Perm (s.coming ++ List.range' s.nextPoint count) := by
    rw [← ht]
    refine (List.Perm.append_left _ (hafter _)).trans ?_
    unfold Mirror.coming
    rw [List.append_assoc]
    exact List.Perm.append_left _
      (List.perm_append_comm.trans (List.Perm.append_right _ hbefore.symm))
  exact
    { numbers := by
        rw [← ht]
        exact h.onLoop l.number fun _ => rfl
      coming := (h.coming.more count hnext).subperm hcoming.subperm
      kept := fun id => by
        rw [← ht]
        change Fetched _ (s.points id ++ if id = l.id then _ else _)
        split
        · rw [← List.append_assoc]
          exact (h.kept id).more count rfl
        · exact (h.kept id).later (Nat.le_add_right _ _)
      loaded := fun todo loaded hinit e he =>
        (h.loaded todo loaded (by rw [← ht] at hinit; exact hinit) e he).later hlater
      sent := fun points hin => (h.sent points (by rw [← ht] at hin; exact hin)).later hlater
      holds := fun e he => by
        have hold := h.holds e (by rw [← ht] at he; exact he)
        refine hold.same rfl rfl hlater (fun p hp hin => ?_) (by rw [← ht])
        refine (List.mem_append.mp (hcoming.mem_iff.mp hin)).resolve_right fun hnew => ?_
        exact Nat.lt_irrefl p
          (Nat.lt_of_lt_of_le (hold.fetched.2 p hp) (List.mem_range'_1.mp hnew).1) }

/-- A round is pushed. -/
theorem Tidy.push {n : Nat} (h : s.Tidy row) (hs : s.step row (.push n) = some t) :
    t.Tidy row := by
  simp only [Mirror.step] at hs
  split at hs
  · cases hs
  rename_i l hfind
  obtain ⟨hl, rfl, -⟩ := found hfind
  obtain ⟨rest, hbefore, hafter⟩ := rounds_at hl h.numbers.1
  obtain rfl := Option.some.inj hs
  generalize ht : ({ s with
      loops := s.onLoop l.number fun l => { l with round := [] } } : Mirror).sends
        (.samples l.id l.round) = t
  have hcoming : t.coming.Perm s.coming := by
    rw [← ht]
    refine (coming_sends _ _).trans ?_
    change (l.round ++ (s.inbox.flatMap Msg.points ++ _)).Perm _
    refine (List.perm_append_comm_assoc _ _ _).trans (List.Perm.append_left _ ?_)
    exact (List.Perm.append_left _ (hafter _)).trans hbefore.symm
  refine h.frame (by rw [← ht]; rfl) ?_ hcoming.subperm (fun id => ?_) ?_ (fun points hin => ?_)
    fun e he => .inl ⟨e, ?_, rfl, rfl, by rw [← ht]; rfl⟩
  · rw [← ht]
    exact h.onLoop l.number fun _ => rfl
  · rw [← ht]
    exact List.Subperm.refl _
  · rw [← ht]
    exact h.loaded
  · rw [← ht] at hin
    obtain hin | hin := List.mem_append.mp hin
    · exact h.sent points hin
    · cases List.mem_singleton.mp hin
  · rw [← ht] at he
    exact he

/-- **A step keeps the points tidy.** -/
theorem Tidy.step {a : Act} (h : s.Tidy row) (hordered : s.Ordered) (hok : s.Orderly row a)
    (hs : s.step row a = some t) : t.Tidy row := by
  cases a with
  | init =>
      simp only [Mirror.step] at hs
      split at hs
      · obtain rfl := Option.some.inj hs
        refine (h.edits rfl rfl rfl rfl rfl (List.Subperm.refl _) ?_ h.sent
          fun e he => .inl ⟨e, he, rfl, rfl, rfl⟩ :
            ({ s with init := .sessions } : Mirror).Tidy row).calls_ _
        rintro _ _ ⟨⟩
      · cases hs
  | startPolling =>
      obtain rfl := Option.some.inj hs
      exact h.calls_ _
  | bindPreset =>
      obtain rfl := Option.some.inj hs
      exact h.calls_ _
  | resumeSession id =>
      obtain rfl := Option.some.inj hs
      exact h.calls fun e he => markRunning_results he
  | stopPolling id =>
      obtain rfl := Option.some.inj hs
      exact h.calls fun e he => markRunning_results he
  | removeSession id =>
      obtain rfl := Option.some.inj hs
      exact h.calls_ _
  | deliver =>
      simp only [Mirror.step] at hs
      split at hs
      · cases hs
      · rename_i m rest hinbox
        obtain rfl := Option.some.inj hs
        exact h.deliver hordered hinbox (hok m (by rw [hinbox]; rfl))
  | store c id =>
      have hstored : ∀ new : Call,
          (({ s with stored := s.stored ++ [id] } : Mirror).drop c |>.calls_ new).Tidy row :=
        fun new => (h.edits rfl rfl rfl rfl rfl (List.Subperm.refl _) h.loaded h.sent
          fun e he => .inl ⟨e, he, rfl, rfl, rfl⟩)
      simp only [Mirror.step] at hs
      split at hs
      · split at hs
        · obtain rfl := Option.some.inj hs
          exact hstored _
        · obtain rfl := Option.some.inj hs
          exact hstored _
        · cases hs
      · cases hs
  | exec c => exact h.exec hs
  | query id points =>
      simp only [Mirror.step] at hs
      split at hs
      · rename_i hc
        obtain rfl := Option.some.inj hs
        refine (h.drop _).sends rfl ?_
        rintro found ⟨⟩
        exact (h.kept id).subperm (hc.2.1.trans (List.sublist_append_left _ _).subperm)
      · cases hs
  | round n count => exact h.round hs
  | push n => exact h.push hs
  | ends n =>
      simp only [Mirror.step] at hs
      split at hs
      · cases hs
      · obtain rfl := Option.some.inj hs
        refine h.reloops ⟨h.numbers.1.sublist (List.filter_sublist.map _), fun l hl => ?_⟩
          (List.filter_sublist.flatMap _)
        exact h.numbers.2 l (List.mem_filter.mp hl).1
  | flush id =>
      simp only [Mirror.step] at hs
      split at hs
      · obtain rfl := Option.some.inj hs
        refine h.frame rfl h.numbers (List.Subperm.refl _) (fun j => ?_) h.loaded h.sent
          fun e he => .inl ⟨e, he, rfl, rfl, rfl⟩
        change ((if j = id then s.points j ++ s.queued j else s.points j) ++
          if j = id then [] else s.queued j).Subperm _
        split
        · rw [List.append_nil]
        · exact List.Subperm.refl _
      · cases hs

/-! ## Every run -/

/-- The window is opened over what Go has. -/
structure Opens (s : Mirror) : Prop where
  stored : s.stored.Nodup
  polled : ∀ id, s.handle id ≠ none → id ∈ s.stored
  numbers : (s.loops.map Loop.number).Nodup ∧ ∀ l ∈ s.loops, l.number < s.nextLoop
  coming : s.Fetched s.coming
  kept : ∀ id, s.Fetched (s.points id ++ s.queued id)
  calls : s.calls = []
  inbox : s.inbox = []
  sessions : s.sessions = []
  init : s.init = .waiting
  since : ∀ id, s.since id = none

theorem Opens.ordered (h : s.Opens) : s.Ordered := by
  have hids : s.ids = [] := congrArg (List.map Session.id) h.sessions
  have hcall : ∀ p : Call → Bool, s.calls.any p = false := fun p => by rw [h.calls]; rfl
  have hmsg : ∀ p : Msg → Bool, s.inbox.any p = false := fun p => by rw [h.inbox]; rfl
  have hnone : ∀ p q, (s.calls.any p || s.inbox.any q) = false := fun p q => by
    rw [hcall, hmsg]
    rfl
  refine
    { once := hids ▸ List.nodup_nil
      storedOnce := h.stored
      reads :=
        { stages := ?_
          loading := fun todo loaded hinit => by rw [h.init] at hinit; cases hinit
          sent := fun ids hin => by rw [h.inbox] at hin; cases hin }
      each := fun id => ?_ }
  · unfold stages
    rw [h.calls, h.inbox]
    exact List.nil_subperm
  · exact
      { listed := fun hid => by rw [hids] at hid; cases hid
        left := fun _ hs => absurd (h.since id) hs
        unlisted := fun hr => by rw [h.init] at hr; cases hr
        flag := fun _ e he => by rw [h.sessions] at he; cases he
        apart := fun hs => absurd ((hcall _).symm.trans hs) Bool.false_ne_true
        leaves := fun hl => absurd ((hnone _ _).symm.trans hl) Bool.false_ne_true
        polled := h.polled id
        asked := fun ha => absurd ((hnone _ _).symm.trans ha) Bool.false_ne_true
        arrives := fun ha => absurd ((hnone _ _).symm.trans ha) Bool.false_ne_true
        starts := fun hs => absurd ((hcall _).symm.trans hs) Bool.false_ne_true }

theorem Opens.tidy (h : s.Opens) : s.Tidy row where
  numbers := h.numbers
  coming := h.coming
  kept := h.kept
  loaded todo loaded hinit := by rw [h.init] at hinit; cases hinit
  sent points hin := by rw [h.inbox] at hin; cases hin
  holds e he := by rw [h.sessions] at he; cases he

/-- **The list mirrors the scheduler**: a run in which every step finds what it counts on settles
with the sessions Go stores, their flags and their points. -/
theorem mirrors_of_run {acts : List Act} (hopens : s.Opens)
    (hrun : Run (step row) (Orderly row) s acts t) (hsettled : t.Settled) : t.Mirrors row := by
  obtain ⟨hordered, htidy⟩ : t.Ordered ∧ t.Tidy row :=
    hrun.invariant (I := fun s => s.Ordered ∧ s.Tidy row) ⟨hopens.ordered, hopens.tidy⟩
      fun _ _ _ h hok hs => ⟨h.1.step hok hs, h.2.step h.1 hok hs⟩
  obtain ⟨hcalls, hinbox, hinit, -⟩ := hsettled
  obtain ⟨hlisted, hrunning, hpolled⟩ := hordered.mirrors hcalls hinbox hinit
  exact
    { once := hordered.once
      stored := hlisted
      running := hrunning
      polled := hpolled
      results := fun e he => (htidy.holds e he).fetched.1
      since := fun e he points hpoints => (htidy.holds e he).since points hpoints }

end Mirror

/-! ## A round that is pushed after the stop -/

/-- The scheduler polls the one session there is. -/
def onePolled (points : List Point) : Mirror where
  stored := ["a"]
  points := fun id => if id = "a" then points else []
  handle := fun id => if id = "a" then some 0 else none
  loops := [{ id := "a", number := 0 }]
  nextLoop := 1
  nextPoint := points.length
  autoResume := false

def oneSeries : Id → Row := fun _ => { oids := ["1.3.6.1.2.1.1.3.0"], targets := ["h"], conn := true }

theorem opens_onePolled (n : Nat) : (onePolled (List.range n)).Opens where
  stored := List.nodup_singleton "a"
  polled id hid := by
    by_cases ha : id = "a"
    · exact ha ▸ List.mem_singleton_self "a"
    · exact absurd (if_neg ha) hid
  numbers := ⟨List.nodup_singleton 0, by simp [onePolled]⟩
  coming := ⟨List.nodup_nil, by simp [onePolled, Mirror.coming]⟩
  kept id := by
    change Mirror.Fetched _ ((if id = "a" then List.range n else []) ++ [])
    rw [List.append_nil]
    split
    · exact ⟨List.nodup_range, fun p hp => by simpa [onePolled] using hp⟩
    · exact ⟨List.nodup_nil, by simp⟩
  calls := rfl
  inbox := rfl
  sessions := rfl
  init := rfl
  since _ := rfl

/-- The window reads the session and its points. -/
def reading (points : List Point) (rest : List Act) : List Act :=
  [.init, .exec .loadSessions, .deliver, .query "a" points, .deliver, .exec .running, .deliver] ++ rest

/-- A round arrives, and the session is stopped. -/
def stoppedAfter : List Act :=
  reading [0, 1] [.round 0 2, .push 0, .deliver, .flush "a", .stopPolling "a",
    .exec (.stop "a" false), .ends 0, .exec (.stopping "a" false 0)]

theorem mirrors_of_run_stopped :
    ∃ t, Run (Mirror.step oneSeries) (Mirror.Orderly oneSeries) (onePolled [0, 1]) stoppedAfter t ∧
      t.sessions = [{ id := "a", results := [0, 1, 2, 3], running := false }] ∧
      t.Mirrors oneSeries := by
  have hend : (exec (checked (Mirror.step oneSeries) fun s a => decide (s.Orderly oneSeries a))
      (onePolled [0, 1]) stoppedAfter).map (fun t =>
        (t.calls, t.inbox.length, t.init.stage.isNone && t.init.ready && t.loops.isEmpty,
          t.sessions)) =
      some ([], 0, true, [{ id := "a", results := [0, 1, 2, 3], running := false }]) := by
    decide
  obtain ⟨t, ht, hend⟩ := Option.map_eq_some_iff.mp hend
  simp only [Prod.mk.injEq, List.length_eq_zero_iff, Bool.and_eq_true, List.isEmpty_iff] at hend
  obtain ⟨hcalls, hinbox, ⟨⟨hstage, hready⟩, hloops⟩, hsessions⟩ := hend
  have hinit : t.init = .done := by
    cases hi : t.init <;> simp_all [Init.stage, Init.ready]
  have hrun := run_of_checked (fun _ _ h => of_decide_eq_true h) ht
  exact ⟨t, hrun, hsessions, Mirror.mirrors_of_run (opens_onePolled 2) hrun
    ⟨hcalls, hinbox, hinit, by simp [hloops]⟩⟩

/-- The session is stopped while a round of it is queued. -/
def stoppedDuring : List Act :=
  reading [] [.round 0 1, .stopPolling "a", .exec (.stop "a" false), .push 0, .ends 0,
    .exec (.stopping "a" false 0), .deliver]

/-- **The last round sets the flag of a stopped session.** -/
theorem running_while_stopped :
    ¬ ∀ (s t : Mirror) (acts : List Act), s.Opens →
        Run (Mirror.step oneSeries) (fun _ _ => True) s acts t → t.Settled → t.Mirrors oneSeries := by
  intro hall
  have hend : (exec (Mirror.step oneSeries) (onePolled []) stoppedDuring).map (fun t =>
        (t.calls, t.inbox.length, t.init.stage.isNone && t.init.ready && t.loops.isEmpty,
          t.sessions.map fun e => e.running && (t.handle e.id).isNone)) =
      some ([], 0, true, [true]) := by
    decide
  obtain ⟨t, ht, hend⟩ := Option.map_eq_some_iff.mp hend
  simp only [Prod.mk.injEq, List.length_eq_zero_iff, Bool.and_eq_true, List.isEmpty_iff] at hend
  obtain ⟨hcalls, hinbox, ⟨⟨hstage, hready⟩, hloops⟩, hsessions⟩ := hend
  have hinit : t.init = .done := by
    cases hi : t.init <;> simp_all [Init.stage, Init.ready]
  have hmirrors := hall _ t _ (opens_onePolled 0) (run_of_exec ht)
    ⟨hcalls, hinbox, hinit, by simp [hloops]⟩
  obtain ⟨e, he, hpair⟩ := List.mem_map.mp (hsessions ▸ List.mem_singleton_self true)
  rw [Bool.and_eq_true, Option.isNone_iff_eq_none] at hpair
  have hflag := hmirrors.running e he
  rw [hpair.1, hpair.2] at hflag
  cases hflag

end SnmpLens.Polling
