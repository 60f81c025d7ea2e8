import SnmpLens.Polling.Store

/-!
# Which sessions are listed, and which of them run

A session that is stored is on the list, on its way into it or on its way out of it, and its flag is
what the scheduler will do once the calls about it are executed. `Mirror.Local` says so of one
session: it reads the calls and messages about that session and no others, so a step about another
session keeps it.
-/

namespace SnmpLens.Polling

open Machine

def Msg.about (id : Id) : Msg → Bool
  | .created i => i == id
  | .bound i => i == id
  | .stopped i => i == id
  | _ => false

/-- Two lists have the same elements but for some. -/
def SameBut {α : Type} (plain : α → Bool) (xs ys : List α) : Prop :=
  ∀ p : α → Bool, (∀ x, plain x = false → p x = false) → xs.any p = ys.any p

namespace SameBut

variable {α : Type} {plain : α → Bool} {xs ys : List α} {x : α}

theorem refl (xs : List α) : SameBut plain xs xs := fun _ _ => rfl

theorem cons (h : SameBut plain xs ys) (hx : plain x = false) : SameBut plain (x :: xs) ys := by
  intro p hp
  rw [List.any_cons, hp x hx, Bool.false_or, h p hp]

theorem append (h : SameBut plain xs ys) (hx : plain x = false) : SameBut plain (xs ++ [x]) ys := by
  intro p hp
  rw [List.any_append, List.any_cons, hp x hx, h p hp]
  simp

theorem tail (x : α) (hx : plain x = false) : SameBut plain xs (x :: xs) := by
  intro p hp
  rw [List.any_cons, hp x hx, Bool.false_or]

theorem prepend {zs : List α} (h : SameBut plain xs ys) (hz : ∀ z ∈ zs, plain z = false) :
    SameBut plain (zs ++ xs) ys := by
  intro p hp
  have hnone : zs.any p = false := List.any_eq_false.mpr fun z hin => by simp [hp z (hz z hin)]
  rw [List.any_append, hnone, Bool.false_or, h p hp]

end SameBut

theorem any_erase {cs : List Call} {c : Call} (h : c ∈ cs) (p : Call → Bool) :
    cs.any p = (p c || (cs.erase c).any p) := by
  rw [Bool.eq_iff_iff, Bool.or_eq_true, List.any_eq_true, List.any_eq_true]
  constructor
  · rintro ⟨x, hx, hp⟩
    rcases List.mem_cons.mp ((List.perm_cons_erase h).mem_iff.mp hx) with rfl | hx
    · exact .inl hp
    · exact .inr ⟨x, hx, hp⟩
  · rintro (hp | ⟨x, hx, hp⟩)
    · exact ⟨c, h, hp⟩
    · exact ⟨x, List.mem_of_mem_erase hx, hp⟩

theorem SameBut.erase {plain : Call → Bool} {cs : List Call} {c : Call} (hc : c ∈ cs)
    (hplain : plain c = false) : SameBut plain (cs.erase c) cs := by
  intro p hp
  rw [any_erase hc p, hp c hplain, Bool.false_or]

theorem any_imp {α : Type} {xs : List α} {p q : α → Bool} (hpq : ∀ x, p x = true → q x = true)
    (h : xs.any p = true) : xs.any q = true := by
  obtain ⟨x, hx, hp⟩ := List.any_eq_true.mp h
  exact List.any_eq_true.mpr ⟨x, hx, hpq x hp⟩

namespace Mirror

variable {row : Id → Row} {s t : Mirror} {id i : Id}

/-- The window asks for the session, which it has listed. -/
def asking (s : Mirror) (id : Id) : Bool :=
  s.calls.any (Call.listed id) || s.inbox.any (Msg.stops id)

/-- What is so of a session between two steps. -/
structure Local (s : Mirror) (id : Id) : Prop where
  /-- A session of the list is stored and is not being deleted. -/
  listed : id ∈ s.ids → id ∈ s.stored ∧ s.deleting id = false ∧ s.since id ≠ none
  /-- One that is stored and was listed is, or is being deleted. -/
  left : id ∈ s.stored → s.since id ≠ none → id ∈ s.ids ∨ s.deleting id = true
  /-- Once the list is set, one that was not listed is on its way. -/
  unlisted : s.init.ready = true → id ∈ s.stored → s.since id = none → s.arriving id = true
  /-- The flag is what the scheduler will do, unless it is to be asked. -/
  flag : s.init.settling = false → ∀ e ∈ s.sessions, e.id = id →
    s.removing id = true ∨ e.running = s.target id
  apart : s.starting id = true → s.stopping id = false
  leaves : s.leaving id = true → s.handle id = none ∧ s.starting id = false
  polled : s.handle id ≠ none → id ∈ s.stored
  asked : s.asking id = true → s.since id ≠ none
  arrives : s.arriving id = true → s.since id = none → id ∈ s.stored
  starts : s.starting id = true → id ∈ s.stored

/-- What a session's part of the state is made of is the same. -/
structure Same (s t : Mirror) (id : Id) : Prop where
  calls : SameBut (Call.about id) t.calls s.calls
  inbox : SameBut (Msg.about id) t.inbox s.inbox
  stored : id ∈ t.stored ↔ id ∈ s.stored
  handle : t.handle id = s.handle id
  ids : id ∈ t.ids ↔ id ∈ s.ids
  since : t.since id = none ↔ s.since id = none

namespace Same

theorem starting (h : Same s t id) : t.starting id = s.starting id :=
  h.calls _ fun c hc => by cases c <;> first | rfl | exact hc

theorem stopping (h : Same s t id) : t.stopping id = s.stopping id :=
  h.calls _ fun c hc => by cases c <;> first | rfl | exact hc

theorem deleting (h : Same s t id) : t.deleting id = s.deleting id :=
  h.calls _ fun c hc => by cases c <;> first | rfl | simpa [Call.about] using hc

theorem stops (h : Same s t id) : t.inbox.any (Msg.stops id) = s.inbox.any (Msg.stops id) :=
  h.inbox _ fun m hm => by cases m <;> first | rfl | exact hm

theorem removing (h : Same s t id) : t.removing id = s.removing id := by
  unfold Mirror.removing
  rw [h.stops, h.calls _ fun c hc => by
    cases c <;> first | rfl | simp_all [Call.about, Call.removes]]

theorem leaving (h : Same s t id) : t.leaving id = s.leaving id := by
  unfold Mirror.leaving
  rw [h.stops, h.calls _ fun c hc => by
    cases c <;> first | rfl | exact hc | simp_all [Call.about, Call.leaves]]

theorem arriving (h : Same s t id) : t.arriving id = s.arriving id := by
  unfold Mirror.arriving
  rw [h.inbox _ fun m hm => by cases m <;> first | rfl | exact hm,
    h.calls _ fun c hc => by cases c <;> first | rfl | exact hc]

theorem asking (h : Same s t id) : t.asking id = s.asking id := by
  unfold Mirror.asking
  rw [h.stops, h.calls _ fun c hc => by cases c <;> first | rfl | exact hc]

theorem target (h : Same s t id) : t.target id = s.target id := by
  unfold Mirror.target
  rw [h.starting, h.stopping, h.handle]

/-- What is so of a session stays so. -/
theorem kept (h : Same s t id) (hs : s.Local id)
    (hready : t.init.ready = true → id ∈ s.stored → s.since id = none → s.arriving id = true)
    (hflag : t.init.settling = false → ∀ e ∈ t.sessions, e.id = id →
      s.removing id = true ∨ e.running = s.target id) : t.Local id where
  listed hid := by
    rw [h.stored, h.deleting, ne_eq, h.since]
    exact hs.listed (h.ids.mp hid)
  left hid hsince := by
    rw [h.ids, h.deleting]
    exact hs.left (h.stored.mp hid) fun hnone => hsince (h.since.mpr hnone)
  unlisted hr hid hsince := by
    rw [h.arriving]
    exact hready hr (h.stored.mp hid) (h.since.mp hsince)
  flag hset e he heq := by
    rw [h.removing, h.target]
    exact hflag hset e he heq
  apart hid := by
    rw [h.stopping]
    exact hs.apart (h.starting ▸ hid)
  leaves hid := by
    rw [h.handle, h.starting]
    exact hs.leaves (h.leaving ▸ hid)
  polled hid := h.stored.mpr (hs.polled (h.handle ▸ hid))
  asked hid hnone := hs.asked (h.asking ▸ hid) (h.since.mp hnone)
  arrives hid hsince := h.stored.mpr (hs.arrives (h.arriving ▸ hid) (h.since.mp hsince))
  starts hid := h.stored.mpr (hs.starts (h.starting ▸ hid))

end Same

/-! ## The startup -/

end Mirror

/-- How far the startup is. -/
def Init.stage : Init → Option Nat
  | .sessions => some 1
  | .data _ _ => some 2
  | .running => some 3
  | _ => none

def Call.stage : Call → Option Nat
  | .loadSessions => some 1
  | .loadData _ => some 2
  | .running => some 3
  | _ => none

def Msg.stage : Msg → Option Nat
  | .sessions _ => some 1
  | .data _ => some 2
  | .running _ => some 3
  | _ => none

namespace Mirror

variable {row : Id → Row} {s t : Mirror} {id i : Id}

/-- What the startup waits for. -/
def stages (s : Mirror) : List Nat :=
  s.calls.filterMap Call.stage ++ s.inbox.filterMap Msg.stage

/-- The startup waits for one answer at most, and the sessions it reads are told apart. -/
structure Reads (s : Mirror) : Prop where
  stages : s.stages.Subperm s.init.stage.toList
  loading : ∀ todo loaded, s.init = .data todo loaded → (loaded.map Session.id ++ todo).Nodup
  sent : ∀ ids, .sessions ids ∈ s.inbox → ids.Nodup

theorem Reads.same (h : s.Reads) (hinit : t.init = s.init) (hstages : t.stages.Subperm s.stages)
    (hsent : ∀ ids, .sessions ids ∈ t.inbox → .sessions ids ∈ s.inbox) : t.Reads where
  stages := hinit ▸ hstages.trans h.stages
  loading := hinit ▸ h.loading
  sent ids hids := h.sent ids (hsent ids hids)

/-- The answer the startup waits for is the only one. -/
theorem Reads.answered (h : s.Reads) {m : Msg} {rest : List Msg} (hinbox : s.inbox = m :: rest)
    {k : Nat} (hm : m.stage = some k) :
    s.init.stage = some k ∧ ({ s with inbox := rest } : Mirror).stages = [] := by
  have hstages : s.stages.Perm (k :: ({ s with inbox := rest } : Mirror).stages) := by
    unfold Mirror.stages
    rw [hinbox, List.filterMap_cons_some hm]
    exact List.perm_middle
  have hsub := hstages.symm.subperm.trans h.stages
  cases hinit : s.init.stage with
  | none =>
      rw [hinit] at hsub
      have := hsub.length_le
      simp at this
  | some n =>
      rw [hinit] at hsub
      have hlen := hsub.length_le
      have hk : k ∈ [n] := hsub.subset List.mem_cons_self
      refine ⟨by rw [List.mem_singleton.mp hk], List.length_eq_zero_iff.mp ?_⟩
      simp at hlen
      simpa using hlen

/-- The list between two steps. -/
structure Ordered (s : Mirror) : Prop where
  once : s.ids.Nodup
  storedOnce : s.stored.Nodup
  reads : s.Reads
  each : ∀ id, s.Local id

/-- **A settled list is that of the scheduler.** -/
theorem Ordered.mirrors (h : s.Ordered) (hcalls : s.calls = []) (hinbox : s.inbox = [])
    (hinit : s.init = .done) :
    (∀ id, id ∈ s.ids ↔ id ∈ s.stored) ∧
      (∀ e ∈ s.sessions, e.running = (s.handle e.id).isSome) ∧
      ∀ id, (s.handle id).isSome → id ∈ s.ids := by
  have hlisted : ∀ id, id ∈ s.ids ↔ id ∈ s.stored := by
    refine fun id => ⟨fun hid => ((h.each id).listed hid).1, fun hid => ?_⟩
    have hsince : s.since id ≠ none := by
      intro hnone
      have harrives := (h.each id).unlisted (by rw [hinit]; rfl) hid hnone
      simp [arriving, hcalls, hinbox] at harrives
    refine ((h.each id).left hid hsince).resolve_right ?_
    simp [deleting, hcalls]
  refine ⟨hlisted, fun e he => ?_, fun id hid => ?_⟩
  · have hflag := (h.each e.id).flag (by rw [hinit]; rfl) e he rfl
    simpa [removing, target, starting, stopping, hcalls, hinbox] using hflag
  · exact (hlisted id).mpr ((h.each id).polled (Option.isSome_iff_ne_none.mp hid))

/-- A step that moves no session. -/
theorem Ordered.plain (h : s.Ordered) (hsame : ∀ id, Same s t id) (hids : t.ids = s.ids)
    (hstored : t.stored = s.stored) (hreads : t.Reads)
    (hready : t.init.ready = true → s.init.ready = true ∨
      ∀ id ∈ s.stored, s.since id = none → s.arriving id = true)
    (hflag : t.init.settling = false → ∀ e ∈ t.sessions,
      s.removing e.id = true ∨ e.running = s.target e.id) : t.Ordered where
  once := hids ▸ h.once
  storedOnce := hstored ▸ h.storedOnce
  reads := hreads
  each id := (hsame id).kept (h.each id)
    (fun hr hid hs => (hready hr).elim (fun hr => (h.each id).unlisted hr hid hs)
      fun harr => harr id hid hs)
    fun hset e he heq => heq ▸ hflag hset e he

/-- A step about one session. -/
theorem Ordered.about (h : s.Ordered) (i : Id) (hinit : t.init = s.init) (honce : t.ids.Nodup)
    (hstored : t.stored.Nodup) (hreads : t.Reads) (hsame : ∀ id, i ≠ id → Same s t id)
    (hflag : ∀ e ∈ t.sessions, e.id = i ∨ e ∈ s.sessions) (hat : t.Local i) : t.Ordered where
  once := honce
  storedOnce := hstored
  reads := hreads
  each id := by
    by_cases hid : i = id
    · exact hid ▸ hat
    · refine (hsame id hid).kept (h.each id)
        (fun hr => (h.each id).unlisted (hinit ▸ hr)) fun hset e he heq => ?_
      obtain heq' | he := hflag e he
      · exact absurd (heq'.symm.trans heq) hid
      · exact (h.each id).flag (hinit ▸ hset) e he heq

end Mirror

end SnmpLens.Polling
