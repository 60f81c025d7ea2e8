import SnmpLens.Lib.Machine
import SnmpLens.Sessions.Model

/-!
# The users the window hands to the trap listener

`start` and `syncTrapUsers` of `frontend/src/stores/trapStore.js`, and what they send:
`trapUsers` of `credentialProfiles.js` through `buildTrapListenerRequest` of
`snmpParams.js`. A save of the settings is a call of `UpdateTrapUsers` unless the set is the
one `appliedUsers` remembers. Go executes the calls in the order they were made; their answers
come back in any order, and between any two steps the settings may be saved again.

`appliedUsers` is a JSON text of objects that have the same fields, so two sets have one text
when they are the same, and the set stands for its text.
-/

namespace SnmpLens.Traps

open Utf8 Strings Machine
open Sessions (V3Params)

/-! ## What is sent -/

def usesAuth (level : Octets) : Bool := level == octets "AuthNoPriv" || level == octets "AuthPriv"

def usesPriv (level : Octets) : Bool := level == octets "AuthPriv"

/-- A credential profile; `acceptTraps` that is absent means yes. -/
structure CredentialProfile where
  version : Octets
  acceptTraps : Bool := true
  v3 : Option V3Params := none

/-- The settings the listener's users are built from. -/
structure Settings where
  trapPort : Int := 162
  acceptDefaultUser : Bool := true
  v3 : Option V3Params := none
  credentialProfiles : List CredentialProfile := []

/-- Reduced to what receiving uses. -/
def received (v3 : V3Params) : V3Params :=
  let level := if v3.secLevel = [] then octets "NoAuthNoPriv" else v3.secLevel
  { user := v3.user
    secLevel := level
    authProto := if usesAuth level then v3.authProto else []
    authPass := if usesAuth level then v3.authPass else []
    privProto := if usesPriv level then v3.privProto else []
    privPass := if usesPriv level then v3.privPass else [] }

/-- `add` of `trapUsers`. -/
def addUser (out : List V3Params) : Option V3Params → List V3Params
  | none => out
  | some v3 =>
      if v3.user = [] then out
      else if received v3 ∈ out then out
      else out ++ [received v3]

def trapUsers (s : Settings) : List V3Params :=
  s.credentialProfiles.foldl
    (fun out p => if p.version = octets "v3" ∧ p.acceptTraps then addUser out p.v3 else out)
    (if s.acceptDefaultUser then addUser [] s.v3 else [])

structure TrapListenerRequest where
  port : Int
  users : List V3Params

def buildTrapListenerRequest (s : Settings) : TrapListenerRequest where
  port := s.trapPort
  users := trapUsers s

/-! ## The store -/

/-- A call of Go. -/
inductive Call where
  | startTrapListener (request : TrapListenerRequest)
  | updateTrapUsers (users : List V3Params)

def Call.users : Call → List V3Params
  | startTrapListener request => request.users
  | updateTrapUsers users => users

/-- The trap store, the settings, and Go. -/
structure Store where
  settings : Settings
  /-- `settingsReady` is resolved, and `syncTrapUsers` subscribed. -/
  ready : Bool := false
  /-- `getState()` is `ok`: the stored credentials are open. -/
  opened : Bool := true
  appliedUsers : Option (List V3Params) := none
  /-- The calls Go has yet to execute, the first one made first. -/
  queue : List Call := []
  /-- The answers on their way back, with whether the call succeeded. -/
  answers : List (Call × Bool) := []
  /-- The users of the last call Go executed, with whether it succeeded. -/
  last : Option (List V3Params × Bool) := none
  /-- The users of the last call that succeeded. -/
  accepted : Option (List V3Params) := none
  /-- The users of the last call that was made. -/
  sent : Option (List V3Params) := none
  /-- The answer of a call that failed has come since the settings were last saved. -/
  failed : Bool := false
  /-- The settings were saved after a call had failed, and the set was not sent. -/
  skipped : Bool := false

inductive Act where
  /-- `settingsReady` is resolved: the subscription is called with the settings there are. -/
  | subscribe
  | save (s : Settings)
  | start
  /-- Go executes the next call. -/
  | execute (succeeds : Bool)
  /-- The answer at a position comes back. -/
  | answer (i : Nat)

namespace Store

/-- A call is made. -/
def call (c : Call) (s : Store) : Store :=
  { s with queue := s.queue ++ [c], sent := some c.users }

def syncTrapUsers (s : Store) : Store :=
  if s.opened = false then s
  else
    let users := (buildTrapListenerRequest s.settings).users
    if s.appliedUsers = some users then { s with skipped := s.skipped || s.failed, failed := false }
    else { s with appliedUsers := some users, failed := false }.call (.updateTrapUsers users)

/-- What the answer does to the memory: only `start` has something to do after its `await`. -/
def answered (s : Store) : Call × Bool → Store
  | (.startTrapListener request, true) => { s with appliedUsers := some request.users }
  | (.updateTrapUsers _, true) => s
  | (_, false) => { s with failed := true }

def step (s : Store) : Act → Option Store
  | .subscribe => if s.ready then none else some { s with ready := true }.syncTrapUsers
  | .save settings =>
      if s.ready then some { s with settings }.syncTrapUsers else some { s with settings }
  | .start => some (s.call (.startTrapListener (buildTrapListenerRequest s.settings)))
  | .execute succeeds =>
      match s.queue with
      | [] => none
      | c :: queue => some { s with
          queue
          answers := s.answers ++ [(c, succeeds)]
          last := some (c.users, succeeds)
          accepted := if succeeds then some c.users else s.accepted }
  | .answer i =>
      match s.answers[i]? with
      | none => none
      | some a => some (answered { s with answers := s.answers.eraseIdx i } a)

/-- The settings `syncTrapUsers` is called with in a step, where it is. -/
def syncs (s : Store) : Act → Option Settings
  | .subscribe => some s.settings
  | .save settings => if s.ready then some settings else none
  | _ => none

/-- A set is held back only where it is the one the last call sent and no call has failed. -/
def Remembered (s : Store) (a : Act) : Prop :=
  ∀ settings ∈ s.syncs a, s.appliedUsers = some (trapUsers settings) →
    s.sent = some (trapUsers settings) ∧ s.failed = false

instance (s : Store) (a : Act) : Decidable (s.Remembered a) :=
  inferInstanceAs (Decidable (∀ settings ∈ s.syncs a, _))

/-- Every call has been executed and answered. -/
def Settled (s : Store) : Prop := s.queue = [] ∧ s.answers = []

/-- **The listener's users are those of the settings**, and no save after a failure has kept the
set back. -/
structure Follows (s : Store) : Prop where
  users : s.ready = true → s.Settled → ∀ users, s.last = some (users, true) →
    s.accepted = some (trapUsers s.settings)
  resent : s.skipped = false

/-! ## What a step keeps -/

/-- What the calls on their way have to do with the last one made. -/
structure Ordered (s : Store) : Prop where
  made : s.sent = (s.queue.getLast?.map Call.users).or (s.last.map Prod.fst)
  taken : ∀ users, s.last = some (users, true) → s.accepted = some users

/-- The last call made sent what the settings say. -/
structure Sends (s : Store) : Prop extends Ordered s where
  opened : s.opened = true
  sends : s.ready = true → s.sent = some (trapUsers s.settings)
  resent : s.skipped = false

variable {s t : Store}

theorem Ordered.call (h : s.Ordered) (c : Call) : (s.call c).Ordered where
  made := by simp [Store.call]
  taken := h.taken

theorem Ordered.answered (h : s.Ordered) (a : Call × Bool) : (s.answered a).Ordered := by
  obtain ⟨c, succeeds⟩ := a
  cases c <;> cases succeeds <;> exact ⟨h.made, h.taken⟩

theorem Ordered.execute (h : s.Ordered) {succeeds : Bool} (ht : s.step (.execute succeeds) = some t) :
    t.Ordered := by
  simp only [step] at ht
  split at ht
  · cases ht
  · rename_i c queue hqueue
    obtain rfl := Option.some.inj ht
    have hmade := h.made
    rw [hqueue] at hmade
    refine ⟨?_, fun users hlast => ?_⟩
    · -- the call that is taken is the last one made only where nothing is behind it
      rw [hmade]
      cases hlast : queue.getLast? with
      | none =>
          obtain rfl := List.getLast?_eq_none_iff.mp hlast
          rfl
      | some d => simp [List.getLast?_cons, hlast]
    · obtain ⟨rfl, rfl⟩ := Prod.mk.inj (Option.some.inj hlast)
      rfl

theorem sync_kept (hopened : s.opened = true)
    (happlied : s.appliedUsers = some (trapUsers s.settings)) :
    s.syncTrapUsers = { s with skipped := s.skipped || s.failed, failed := false } := by
  have hopen : ¬ s.opened = false := by simp [hopened]
  simp only [syncTrapUsers, if_neg hopen]
  exact if_pos happlied

theorem sync_sent (hopened : s.opened = true)
    (happlied : s.appliedUsers ≠ some (trapUsers s.settings)) :
    s.syncTrapUsers = { s with appliedUsers := some (trapUsers s.settings), failed := false }.call
      (.updateTrapUsers (trapUsers s.settings)) := by
  have hopen : ¬ s.opened = false := by simp [hopened]
  simp only [syncTrapUsers, if_neg hopen]
  exact if_neg happlied

/-- **A call of `syncTrapUsers` sends what the settings say**, unless they are what was sent. -/
theorem sends_sync (h : s.Ordered) (hopened : s.opened = true) (hresent : s.skipped = false)
    (hok : s.appliedUsers = some (trapUsers s.settings) →
      s.sent = some (trapUsers s.settings) ∧ s.failed = false) : s.syncTrapUsers.Sends := by
  by_cases happlied : s.appliedUsers = some (trapUsers s.settings)
  · obtain ⟨hsent, hfailed⟩ := hok happlied
    rw [sync_kept hopened happlied]
    exact
      { made := h.made
        taken := h.taken
        opened := hopened
        sends := fun _ => hsent
        resent := by rw [hresent, hfailed]; rfl }
  · have hordered : Ordered { s with appliedUsers := some (trapUsers s.settings), failed := false } :=
      ⟨h.made, h.taken⟩
    rw [sync_sent hopened happlied]
    exact
      { toOrdered := hordered.call _
        opened := hopened
        sends := fun _ => rfl
        resent := hresent }

theorem sends_step (h : s.Sends) {a : Act} (hok : s.Remembered a) (ht : s.step a = some t) :
    t.Sends := by
  cases a with
  | subscribe =>
      simp only [step] at ht
      split at ht
      · cases ht
      · obtain rfl := Option.some.inj ht
        exact sends_sync (s := { s with ready := true }) ⟨h.made, h.taken⟩ h.opened h.resent
          fun happlied => hok _ rfl happlied
  | save settings =>
      simp only [step] at ht
      split at ht
      · rename_i hready
        obtain rfl := Option.some.inj ht
        exact sends_sync (s := { s with settings }) ⟨h.made, h.taken⟩ h.opened h.resent
          fun happlied => hok settings (if_pos hready) happlied
      · rename_i hready
        obtain rfl := Option.some.inj ht
        exact ⟨⟨h.made, h.taken⟩, h.opened, fun hr => absurd hr hready, h.resent⟩
  | start =>
      obtain rfl := Option.some.inj ht
      exact ⟨h.toOrdered.call _, h.opened, fun _ => rfl, h.resent⟩
  | execute succeeds =>
      have hordered := h.toOrdered.execute ht
      simp only [step] at ht
      split at ht
      · cases ht
      · obtain rfl := Option.some.inj ht
        exact ⟨hordered, h.opened, h.sends, h.resent⟩
  | answer i =>
      simp only [step] at ht
      split at ht
      · cases ht
      · rename_i a ha
        obtain rfl := Option.some.inj ht
        have hordered := Ordered.answered (s := { s with answers := s.answers.eraseIdx i })
          ⟨h.made, h.taken⟩ a
        obtain ⟨c, succeeds⟩ := a
        cases c <;> cases succeeds <;> exact ⟨hordered, h.opened, h.sends, h.resent⟩

theorem Sends.follows (h : s.Sends) : s.Follows where
  users hready hsettled users hlast := by
    have hmade := h.made
    rw [hsettled.1, hlast] at hmade
    have hsent : s.sent = some users := hmade
    rw [h.taken users hlast, ← hsent, h.sends hready]
  resent := h.resent

end Store

/-- **The listener follows the settings** in every run in which a set is held back only where it is
the one the last call sent and no call has failed since the settings were saved. -/
theorem listener_follows {settings : Settings} {acts : List Act} {t : Store}
    (hrun : Run Store.step Store.Remembered { settings } acts t) : t.Follows := by
  have h : Store.Sends { settings } :=
    { made := rfl
      taken := fun _ hlast => nomatch hlast
      opened := rfl
      sends := fun hready => nomatch hready
      resent := rfl }
  exact (hrun.invariant h fun _ _ _ h => Store.sends_step h).follows

/-- Settings whose default user is one. -/
def withUser (name : String) : Settings where
  v3 := some { user := octets name }

/-- A set is changed, refused, and sent again with the next change. -/
theorem listener_follows_resent :
    ∃ t, Run Store.step Store.Remembered { settings := withUser "old" }
        [.subscribe, .execute true, .answer 0, .save (withUser "new"), .execute false, .answer 0,
          .save (withUser "old"), .execute true, .answer 0] t ∧
      t.accepted = some (trapUsers (withUser "old")) ∧ t.Follows := by
  have hrun : Run Store.step Store.Remembered { settings := withUser "old" }
      [.subscribe, .execute true, .answer 0, .save (withUser "new"), .execute false, .answer 0,
        .save (withUser "old"), .execute true, .answer 0] _ :=
    run_of_checked (fun s a (h : decide (s.Remembered a) = true) => of_decide_eq_true h) rfl
  exact ⟨_, hrun, by decide, listener_follows hrun⟩

/-- **An answer of `start` that comes late is taken for the set that is applied**, and the settings
that go back to it are not sent. -/
theorem reverted_not_sent :
    ∃ t, Run Store.step (fun _ _ => True) { settings := withUser "old" }
        [.subscribe, .execute true, .answer 0, .start, .save (withUser "new"), .execute true,
          .execute true, .answer 0, .answer 0, .save (withUser "old")] t ∧
      t.Settled ∧ t.last = some (trapUsers (withUser "new"), true) ∧
      t.settings = withUser "old" ∧ ¬ t.Follows := by
  refine ⟨_, run_of_exec rfl, ⟨rfl, rfl⟩, rfl, rfl, fun h => ?_⟩
  exact absurd (h.users rfl ⟨rfl, rfl⟩ _ rfl) (by decide)

end SnmpLens.Traps
