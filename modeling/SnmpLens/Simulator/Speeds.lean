import SnmpLens.Simulator.Faults

/-!
# Which orders of the reads keep a counter from stepping back

A request that counts by faults no call has gone past counts less than any after it. So does one
that counts by faults that are over, if they ran no faster than all that came since. What is lost
otherwise is that the next speed goes on from a moment before the request read the clock. And a call
that has found the agent not started, and gets the lock after the start, forgets how far the
counters had run.
-/

namespace SnmpLens.Simulator

namespace FaultWorld

variable {w w' : FaultWorld} {a : FaultStep} {st : Int} {quoted : String → String}

/-- The faults in force once the call that has read the clock is done. -/
def ahead (w : FaultWorld) (st : Int) : FaultState :=
  match w.setting with
  | none => w.state
  | some (f, now, _) => setFaultsLocked w.state f now st

/-- A step that makes no counter step back: a request reads the clock under faults that ran no
faster than any a call has read the clock for since, and a call that has found no start finds
none when it stores, or counters whose speed was never changed. -/
def Orderly (w : FaultWorld) : FaultStep → Prop
  | .answer _ => ∀ r, w.request = some r → ∀ f ∈ r.passed, r.state.rate ≤ f.speed
  | .lock i => ∀ f, w.calls[i]? = some (f, none) → w.started = none ∨ w.state.warp = none
  | _ => True

/-- The same, as it is evaluated. -/
def orderly (w : FaultWorld) : FaultStep → Bool
  | .answer _ =>
      match w.request with
      | some r => r.passed.all fun f => r.state.rate ≤ f.speed
      | none => true
  | .lock i =>
      match w.calls[i]? with
      | some (_, none) => w.started.isNone || w.state.warp.isNone
      | _ => true
  | _ => true

theorem orderly_of_check (w : FaultWorld) (a : FaultStep) (h : w.orderly a = true) :
    w.Orderly a := by
  cases a with
  | answer roll =>
      intro r hr f hf
      unfold orderly at h
      rw [hr] at h
      exact of_decide_eq_true (List.all_eq_true.mp h f hf)
  | lock i =>
      intro f hf
      simp only [orderly, hf, Bool.or_eq_true, Option.isNone_iff_eq_none] at h
      exact h
  | _ => trivial

/-! ## The invariant -/

/-- What a request has loaded is behind what counts, unless it was made slower; and what was
answered is behind what the request will count. -/
structure Follows (w : FaultWorld) (st : Int) (r : Loaded) : Prop where
  past : r.state.Past st w.now
  answered : ∀ k ∈ w.answered, counterSeconds k ≤ r.state.secondsAt st w.now
  outrun : (∀ f ∈ r.passed, r.state.rate ≤ f.speed) → ∀ t, w.now ≤ t →
    r.state.secondsAt st t ≤ w.state.secondsAt st t ∧
      r.state.secondsAt st t ≤ (w.ahead st).secondsAt st t

/-- What holds of an agent that was started. -/
structure Counting (w : FaultWorld) (st : Int) : Prop where
  past : w.state.Past st w.now
  setting : ∀ f now st', w.setting = some (f, now, st') →
    now ≤ w.now ∧ st' = st ∧ w.state.Past st now
  sorted : (w.answered.map counterSeconds).Pairwise (· ≤ ·)
  behind : ∀ k ∈ w.answered, counterSeconds k ≤ w.state.secondsAt st w.now ∧
    counterSeconds k ≤ (w.ahead st).secondsAt st w.now
  request : ∀ r, w.request = some r → w.Follows st r

structure Sound (w : FaultWorld) : Prop where
  unstarted : w.started = none →
    w.answered = [] ∧ w.request = none ∧ w.setting = none ∧ w.state.warp = none
  calls : ∀ f st, (f, some st) ∈ w.calls → w.started = some st
  counting : ∀ st, w.started = some st → w.Counting st

theorem sound_new (f : Faults) (now : Int) : (FaultWorld.new f now).Sound where
  unstarted := fun _ => ⟨rfl, rfl, rfl, rfl⟩
  calls := fun _ _ h => absurd h List.not_mem_nil
  counting := fun _ h => absurd h (Option.some_ne_none _).symm

theorem ahead_of_none (h : w.setting = none) : w.ahead st = w.state := by
  unfold ahead
  rw [h]

theorem ahead_of_some {f : Faults} {now st' : Int} (h : w.setting = some (f, now, st')) :
    w.ahead st = setFaultsLocked w.state f now st := by
  unfold ahead
  rw [h]

theorem Counting.ahead_past (h : w.Counting st) : (w.ahead st).Past st w.now := by
  cases hset : w.setting with
  | none =>
      rw [ahead_of_none hset]
      exact h.past
  | some c =>
      obtain ⟨f, now, st'⟩ := c
      obtain ⟨hle, _, hpast⟩ := h.setting f now st' hset
      rw [ahead_of_some hset]
      exact (set_past hpast).later hle

/-! ## The steps -/

theorem Counting.tick (h : w.Counting st) (d : Nat) :
    ({ w with now := w.now + d } : FaultWorld).Counting st := by
  have hle : w.now ≤ w.now + d := by omega
  refine
    { past := h.past.later hle
      setting := ?_
      sorted := h.sorted
      behind := ?_
      request := ?_ }
  · intro f now st' hset
    obtain ⟨hnow, hst, hpast⟩ := h.setting f now st' hset
    exact ⟨hnow.trans hle, hst, hpast⟩
  · intro k hk
    obtain ⟨h1, h2⟩ := h.behind k hk
    exact ⟨h1.trans (secondsAt_mono h.past.rate_nonneg st hle),
      h2.trans (secondsAt_mono h.ahead_past.rate_nonneg st hle)⟩
  · intro r hr
    have hf := h.request r hr
    exact
      { past := hf.past.later hle
        answered := fun k hk =>
          (hf.answered k hk).trans (secondsAt_mono hf.past.rate_nonneg st hle)
        outrun := fun hover t ht => hf.outrun hover t (hle.trans ht) }

theorem Counting.start (h : w.Sound) (hstart : w.started = none) :
    ({ w with
      started := some w.now
      state := setFaultsLocked w.state w.state.faults w.now w.now } : FaultWorld).Counting w.now := by
  obtain ⟨hanswered, hrequest, hsetting, hwarp⟩ := h.unstarted hstart
  have hpast : w.state.Past w.now w.now := by
    constructor
    · unfold FaultState.origin
      rw [hwarp]
    · unfold FaultState.rate
      rw [hwarp]
      exact zero_le_one
  refine
    { past := set_past hpast
      setting := fun f now st' hset => ?_
      sorted := ?_
      behind := fun k hk => ?_
      request := fun r hr => ?_ }
  · rw [hsetting] at hset
    cases hset
  · rw [hanswered]
    exact List.Pairwise.nil
  · rw [hanswered] at hk
    cases hk
  · rw [hrequest] at hr
    cases hr

/-- A call reads the clock. -/
theorem Counting.reads (h : w.Counting st) (f : Faults) (i : Nat) :
    (w.reads f st i).Counting st := by
  have hahead : (w.reads f st i).ahead st = setFaultsLocked w.state f w.now st := rfl
  refine
    { past := h.past
      setting := ?_
      sorted := h.sorted
      behind := ?_
      request := ?_ }
  · intro f' now st' heq
    obtain ⟨rfl, rest⟩ := Prod.mk.inj (Option.some.inj heq)
    obtain ⟨rfl, rfl⟩ := Prod.mk.inj rest
    exact ⟨le_rfl, rfl, h.past⟩
  · intro k hk
    have hk' := (h.behind k hk).1
    rw [hahead]
    refine ⟨hk', ?_⟩
    show _ ≤ (setFaultsLocked w.state f w.now st).secondsAt st w.now
    rw [set_now]
    exact hk'
  · intro r hr
    obtain ⟨r', hr', rfl⟩ := Option.map_eq_some_iff.mp hr
    have hf := h.request r' hr'
    refine { past := hf.past, answered := hf.answered, outrun := fun hover t ht => ?_ }
    have hall : ∀ g ∈ r'.passed, r'.state.rate ≤ g.speed :=
      fun g hg => hover g (List.mem_cons_of_mem _ hg)
    have hold : ∀ t, w.now ≤ t → r'.state.secondsAt st t ≤ w.state.secondsAt st t :=
      fun t ht => (hf.outrun hall t ht).1
    rw [hahead]
    exact ⟨hold t ht, set_over hf.past hold (hover f List.mem_cons_self) ht⟩

/-- The counters go on from what it has read. -/
theorem Counting.store (h : w.Counting st) {f : Faults} {now st' : Int}
    (hset : w.setting = some (f, now, st')) :
    ({ w with setting := none, state := setFaultsLocked w.state f now st' } :
      FaultWorld).Counting st := by
  obtain ⟨hle, rfl, hpast⟩ := h.setting f now st' hset
  have hahead := @ahead_of_some w st' f now st' hset
  refine
    { past := (set_past hpast).later hle
      setting := fun g now' st'' heq => by cases heq
      sorted := h.sorted
      behind := ?_
      request := ?_ }
  · intro k hk
    have hk' := (h.behind k hk).2
    rw [hahead] at hk'
    exact ⟨hk', hk'⟩
  · intro r hr
    have hf := h.request r hr
    refine { past := hf.past, answered := hf.answered, outrun := fun hover t ht => ?_ }
    have hnext := (hf.outrun hover t ht).2
    rw [hahead] at hnext
    exact ⟨hnext, hnext⟩

/-- A request loads the faults in force. -/
theorem Counting.load (h : w.Counting st) :
    ({ w with
      request := some { state := w.state, passed := (w.setting.map Prod.fst).toList } } :
      FaultWorld).Counting st := by
  refine
    { past := h.past
      setting := h.setting
      sorted := h.sorted
      behind := h.behind
      request := ?_ }
  intro r hr
  obtain rfl := Option.some.inj hr
  refine { past := h.past, answered := fun k hk => (h.behind k hk).1, outrun := fun hover t ht => ?_ }
  refine ⟨le_rfl, ?_⟩
  show w.state.secondsAt st t ≤ (w.ahead st).secondsAt st t
  cases hset : w.setting with
  | none => rw [ahead_of_none hset]
  | some c =>
      obtain ⟨f, now, st'⟩ := c
      obtain ⟨hle, _, hpast⟩ := h.setting f now st' hset
      rw [ahead_of_some hset]
      refine set_over hpast (fun _ _ => le_rfl) (hover f ?_) (hle.trans ht)
      rw [hset]
      exact List.mem_singleton_self f

/-- **A request counts no less than those before it**, and what counts is not behind it. -/
theorem Counting.answer (h : w.Counting st) {r : Loaded} (hr : w.request = some r)
    (hover : ∀ f ∈ r.passed, r.state.rate ≤ f.speed) :
    ({ w with
      request := none
      answered := w.answered ++ [{ started := st, now := w.now, warp := r.state.warp }] } :
      FaultWorld).Counting st := by
  have hf := h.request r hr
  obtain ⟨hstate, hahead⟩ := hf.outrun hover w.now le_rfl
  refine
    { past := h.past
      setting := h.setting
      sorted := ?_
      behind := ?_
      request := fun r' hr' => by cases hr' }
  · rw [List.map_append]
    refine List.pairwise_append.mpr ⟨h.sorted, List.pairwise_singleton _ _, ?_⟩
    intro x hx y hy
    obtain ⟨k, hk, rfl⟩ := List.mem_map.mp hx
    rw [List.map_singleton] at hy
    rw [List.mem_singleton.mp hy]
    exact hf.answered k hk
  · intro k hk
    rcases List.mem_append.mp hk with hk | hk
    · exact h.behind k hk
    · rw [List.mem_singleton.mp hk]
      exact ⟨hstate, hahead⟩

/-- The counters are the same under faults that never changed their speed. -/
theorem Counting.forgets (h : w.Counting st) (hset : w.setting = none) (hwarp : w.state.warp = none)
    (f : Faults) (i : Nat) : (w.forgets f i).Counting st := by
  have hsame : ∀ t, (w.forgets f i).state.secondsAt st t = w.state.secondsAt st t :=
    secondsAt_congr hwarp.symm st
  have hahead : ∀ t, ((w.forgets f i).ahead st).secondsAt st t = w.state.secondsAt st t := by
    intro t
    rw [ahead_of_none (show (w.forgets f i).setting = none from hset)]
    exact hsame t
  have hpast : (w.forgets f i).state.Past st w.now := by
    have horigin := h.past.origin_le
    unfold FaultState.origin at horigin
    rw [hwarp] at horigin
    exact ⟨horigin, zero_le_one⟩
  refine
    { past := hpast
      setting := fun g now st' heq => ?_
      sorted := h.sorted
      behind := ?_
      request := ?_ }
  · have hnone : some (g, now, st') = none := heq.symm.trans hset
    cases hnone
  · intro k hk
    rw [hahead, hsame]
    exact ⟨(h.behind k hk).1, (h.behind k hk).1⟩
  · intro r hr
    have hf := h.request r hr
    refine { past := hf.past, answered := hf.answered, outrun := fun hover t ht => ?_ }
    have hold := (hf.outrun hover t ht).1
    rw [hahead, hsame]
    exact ⟨hold, hold⟩

/-- **What one step keeps.** -/
theorem Sound.step (h : w.Sound) (ha : w.Orderly a) (hs : FaultWorld.step quoted w a = some w') :
    w'.Sound := by
  cases a with
  | tick d =>
      obtain rfl := Option.some.inj hs
      exact
        { unstarted := h.unstarted
          calls := h.calls
          counting := fun st hst => (h.counting st hst).tick d }
  | start =>
      simp only [FaultWorld.step] at hs
      split at hs
      · rename_i hstart hset
        obtain rfl := Option.some.inj hs
        refine
          { unstarted := fun hnone => by cases hnone
            calls := fun f st hmem => ?_
            counting := fun st hst => ?_ }
        · have hfound := h.calls f st hmem
          rw [hstart] at hfound
          cases hfound
        · obtain rfl := Option.some.inj hst
          exact Counting.start h hstart
      · cases hs
  | ask f =>
      simp only [FaultWorld.step] at hs
      split at hs
      · obtain rfl := Option.some.inj hs
        refine
          { unstarted := h.unstarted
            calls := fun g st hmem => ?_
            counting := fun st hst => ?_ }
        · rcases List.mem_append.mp hmem with hmem | hmem
          · exact h.calls g st hmem
          · exact (Prod.mk.inj (List.mem_singleton.mp hmem)).2.symm
        · have hc := h.counting st hst
          exact
            { past := hc.past
              setting := hc.setting
              sorted := hc.sorted
              behind := hc.behind
              request := fun r hr =>
                { past := (hc.request r hr).past
                  answered := (hc.request r hr).answered
                  outrun := (hc.request r hr).outrun } }
      · cases hs
  | lock i =>
      simp only [FaultWorld.step] at hs
      have hcalls : ∀ g st, (g, some st) ∈ w.calls.eraseIdx i → w.started = some st :=
        fun g st hmem => h.calls g st (List.mem_of_mem_eraseIdx hmem)
      split at hs
      · -- a call that has found the start
        rename_i f st hset hcall
        obtain rfl := Option.some.inj hs
        have hstart := h.calls f st (List.mem_of_getElem? hcall)
        refine
          { unstarted := fun hnone => ?_
            calls := hcalls
            counting := fun st' hst => ?_ }
        · have hstart' : some st = none := hstart.symm.trans hnone
          cases hstart'
        · obtain rfl : st = st' := Option.some.inj (hstart.symm.trans hst)
          exact (h.counting st hst).reads f i
      · -- one that has not: it was not there, or the speed was never changed
        rename_i f hset hcall
        obtain rfl := Option.some.inj hs
        refine
          { unstarted := fun hnone => ?_
            calls := hcalls
            counting := fun st hst => ?_ }
        · obtain ⟨hanswered, hrequest, hsetting, _⟩ := h.unstarted hnone
          exact ⟨hanswered, hrequest, hsetting, rfl⟩
        · have hwarp := (ha f hcall).resolve_left fun hnone => by
            have hstart : some st = none := hst.symm.trans hnone
            cases hstart
          exact (h.counting st hst).forgets hset hwarp f i
      · cases hs
  | store =>
      simp only [FaultWorld.step] at hs
      split at hs
      · rename_i f now st' hset
        obtain rfl := Option.some.inj hs
        refine
          { unstarted := fun hnone => ?_
            calls := h.calls
            counting := fun st hst => (h.counting st hst).store hset }
        have hfree := (h.unstarted hnone).2.2.1
        rw [hset] at hfree
        cases hfree
      · cases hs
  | load =>
      simp only [FaultWorld.step] at hs
      split at hs
      · rename_i st hstart hrequest
        obtain rfl := Option.some.inj hs
        refine
          { unstarted := fun hnone => ?_
            calls := h.calls
            counting := fun st' hst => (h.counting st' hst).load }
        have hnone' : some st = none := hstart.symm.trans hnone
        cases hnone'
      · cases hs
  | lose roll =>
      simp only [FaultWorld.step] at hs
      split at hs
      · split at hs
        · obtain rfl := Option.some.inj hs
          refine
            { unstarted := fun hnone => ?_
              calls := h.calls
              counting := fun st hst => ?_ }
          · obtain ⟨hanswered, _, hsetting, hwarp⟩ := h.unstarted hnone
            exact ⟨hanswered, rfl, hsetting, hwarp⟩
          · have hc := h.counting st hst
            exact
              { past := hc.past
                setting := hc.setting
                sorted := hc.sorted
                behind := hc.behind
                request := fun r hr => by cases hr }
        · cases hs
      · cases hs
  | answer roll =>
      simp only [FaultWorld.step] at hs
      split at hs
      · rename_i st r hstart hrequest
        split at hs
        · cases hs
        · obtain rfl := Option.some.inj hs
          refine
            { unstarted := fun hnone => ?_
              calls := h.calls
              counting := fun st' hst => ?_ }
          · have hnone' : some st = none := hstart.symm.trans hnone
            cases hnone'
          · obtain rfl : st = st' := Option.some.inj (hstart.symm.trans hst)
            exact (h.counting st hst).answer hrequest (ha r hrequest)
      · cases hs

end FaultWorld

/-! ## What the requests count -/

/-- What the requests that were answered have counted, before the wrap. -/
noncomputable def FaultWorld.totals (w : FaultWorld) (c : Counter) : List Nat :=
  w.answered.map fun k => c.total (counterSeconds k)

/-- What they have read. -/
noncomputable def FaultWorld.readings (w : FaultWorld) (c : Counter) : List Nat :=
  w.answered.map fun k => c.read (counterSeconds k)

/-- **In an orderly run no counter steps back**: what the requests read, one after another, is
what was counted up to the wrap, and what was counted only goes up. -/
theorem counts_increase {quoted : String → String} {f : Faults} {now : Int}
    {steps : List FaultStep} {w : FaultWorld} {c : Counter} (hc : 0 ≤ c.perSecond)
    (h : Machine.Run (FaultWorld.step quoted) FaultWorld.Orderly (FaultWorld.new f now) steps w) :
    w.readings c = (w.totals c).map (· % c.modulus) ∧ (w.totals c).Pairwise (· ≤ ·) := by
  have hsound : w.Sound := h.invariant (FaultWorld.sound_new f now)
    fun _ _ _ hsound ha hs => hsound.step ha hs
  constructor
  · unfold FaultWorld.readings FaultWorld.totals
    rw [List.map_map]
    exact List.map_congr_left fun k _ => c.read_eq (counterSeconds k)
  · unfold FaultWorld.totals
    cases hstart : w.started with
    | none =>
        rw [(hsound.unstarted hstart).1]
        exact List.Pairwise.nil
    | some st =>
        have hsorted := (hsound.counting st hstart).sorted
        refine List.pairwise_map.mpr ((List.pairwise_map.mp hsorted).imp ?_)
        exact fun hle => Counter.total_mono hc hle

theorem Counter.total_steady {c : Counter} (h : c.swing.depth = 0) (t : ℚ) :
    c.total t = c.start.toNat + ⌊c.perSecond * t⌋₊ := by
  have htaken : c.swing.taken = 0 := by
    unfold Swing.taken
    rw [h]
    decide +kernel
  have hcast : (c.perSecond : ℝ) * ((t : ℝ) + ((0 : ℚ) : ℝ) * c.swing.area t)
      = ((c.perSecond * t : ℚ) : ℝ) := by
    push_cast
    ring
  unfold Counter.total
  rw [htaken, hcast, ← Int.floor_toNat, Rat.floor_cast, Int.floor_toNat]

/-- A device whose counters run a thousand times faster is made to run them at their own speed
while a request is under way. -/
def slowed : List FaultStep :=
  [.start, .load, .ask {}, .tick (10 ^ 9), .lock 0, .store, .tick (10 ^ 9), .answer 0, .load,
    .answer 0]

theorem slowed_answered :
    ((Machine.exec (FaultWorld.step id) (FaultWorld.new { counterSpeed := 1000 } 0) slowed).map
      fun w => w.answered.map counterSeconds) = some [2000, 1001] := by
  decide +kernel

/-- **A counter does step back**: the request that had loaded the old speed counts two seconds of
it, the one after it one second of it and one of the new. -/
theorem counts_step_back :
    ∃ (f : Faults) (steps : List FaultStep) (w : FaultWorld) (c : Counter), 0 ≤ c.perSecond ∧
      Machine.exec (FaultWorld.step id) (FaultWorld.new f 0) steps = some w ∧
      w.totals c = [2000, 1001] ∧ ¬ (w.totals c).Pairwise (· ≤ ·) := by
  obtain ⟨w, hw, hanswered⟩ := Option.map_eq_some_iff.mp slowed_answered
  have htotals : w.totals { perSecond := 1, start := 0, swing := {} } = [2000, 1001] := by
    have hmap : w.totals { perSecond := 1, start := 0, swing := {} }
        = (w.answered.map counterSeconds).map fun t => (0 : UInt64).toNat + ⌊(1 : ℚ) * t⌋₊ := by
      unfold FaultWorld.totals
      rw [List.map_map]
      exact List.map_congr_left fun k _ => Counter.total_steady rfl _
    rw [hmap, hanswered]
    decide +kernel
  refine ⟨{ counterSpeed := 1000 }, slowed, w, { perSecond := 1, start := 0, swing := {} },
    zero_le_one, hw, htotals, ?_⟩
  rw [htotals]
  decide

/-- The speed is changed between two requests. -/
theorem counts_increase_slowed :
    ∃ w, Machine.exec (FaultWorld.step id) (FaultWorld.new { counterSpeed := 1000 } 0)
        [.start, .ask {}, .load, .answer 0, .tick (10 ^ 9), .lock 0, .store, .tick (10 ^ 9), .load,
          .answer 0] = some w ∧ w.answered.length = 2 ∧
      w.readings { perSecond := 1, start := 0, swing := {} }
        = (w.totals { perSecond := 1, start := 0, swing := {} }).map (· % 2 ^ 32) ∧
      (w.totals { perSecond := 1, start := 0, swing := {} }).Pairwise (· ≤ ·) := by
  have hexec : ((Machine.exec (Machine.checked (FaultWorld.step id) FaultWorld.orderly)
      (FaultWorld.new { counterSpeed := 1000 } 0)
      [.start, .ask {}, .load, .answer 0, .tick (10 ^ 9), .lock 0, .store, .tick (10 ^ 9), .load,
        .answer 0]).map fun w => w.answered.length) = some 2 := by
    decide +kernel
  obtain ⟨w, hw, hlength⟩ := Option.map_eq_some_iff.mp hexec
  have hrun := Machine.run_of_checked FaultWorld.orderly_of_check hw
  exact ⟨w, Machine.exec_of_run hrun, hlength, counts_increase zero_le_one hrun⟩

end SnmpLens.Simulator
