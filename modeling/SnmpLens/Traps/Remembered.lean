import SnmpLens.Lib.Json
import SnmpLens.Lib.Machine
import SnmpLens.Traps.Users

/-!
# The users that are remembered

`StartTrapListener` and `UpdateTrapUsers` of `internal/app/trapusers.go`, over their namesakes of
`pkg/snmp/trap.go`, and the listener that `startService` starts with the users remembered. A call
takes the users, and starts the listener with them or restarts it, under the listener's lock; it
saves them when it has left the lock, so two calls may save in the other order. The credential
store takes no secret above `maxSecretLen`, and what it refuses is only logged.

Several calls are in progress at a time. A step is the section of a call under the lock, the save
that follows it, a stop, something the listener does by itself, or a restart of the application;
any call that is in progress is lost with it.

The text that is stored reads back as the users it was made of, whose strings came over the
bridge and so are UTF-8; what matters of it here is its length.
-/

namespace SnmpLens.Traps

open Utf8 Machine
open Sessions (V3Params)

/-! ## The text that is stored -/

def maxSecretLen : Nat := 2048

/-- A field as `json.Marshal` writes it. -/
def marshalField (name : String) (value : Octets) : Octets :=
  [Json.quote] ++ octets name ++ [Json.quote, chr ':', Json.quote] ++ Json.escape value ++
    [Json.quote]

def marshalUser (u : V3Params) : Octets :=
  [chr '\x7b'] ++ [chr ','].intercalate
    [marshalField "User" u.user, marshalField "AuthProto" u.authProto,
      marshalField "AuthPass" u.authPass, marshalField "PrivProto" u.privProto,
      marshalField "PrivPass" u.privPass, marshalField "SecLevel" u.secLevel,
      marshalField "ContextName" u.contextName] ++ [chr '\x7d']

/-- `json.Marshal(users)`. -/
def marshal (users : List V3Params) : Octets :=
  [chr '['] ++ [chr ','].intercalate (users.map marshalUser) ++ [chr ']']

/-! ## The application -/

structure App where
  /-- The users in the table of the listener that runs. -/
  trapListener : Option (List V3Params) := none
  /-- A listener has been closed and its goroutine has not let go of it. -/
  unwinding : Bool := false
  trapUsers : List V3Params := []
  /-- `a.secrets` is there. -/
  secrets : Bool := true
  /-- What is stored under `TrapUsersRef`. -/
  remembered : Option (List V3Params) := none
  /-- What a call has yet to save. -/
  calls : Nat → Option (List V3Params) := fun _ => none
  /-- The last call to have been under the lock, as long as it has yet to save. -/
  unsaved : Option Nat := none
  /-- The accepted users of the last call. -/
  wanted : List V3Params := []

inductive Turn where
  /-- `StartTrapListener`, up to where it leaves the lock. -/
  | start (p : Nat) (users : List V3Params)
  /-- `UpdateTrapUsers`, up to there; the listener it stops may be late to let go. -/
  | update (p : Nat) (users : List V3Params) (late : Bool)
  /-- `saveTrapUsers` at the end of a call, and what the credential store answers. -/
  | save (p : Nat) (fails : Bool)
  | stop (late : Bool)
  /-- The goroutine of a listener lets go of it. -/
  | unwound
  /-- The listener ends by itself. -/
  | died
  /-- The application starts again: whether the listener is started with it, and whether the
  credential store opens and answers. -/
  | restart (autoStart opens reads : Bool)

namespace App

variable (add : Add)

def running (s : App) : Bool := s.trapListener.isSome || s.unwinding

/-- A call leaves the lock with its accepted users. -/
def leaves (p : Nat) (users : List V3Params) (s : App) : App :=
  { s with
    calls := fun q => if q = p then some users else s.calls q
    unsaved := some p
    wanted := users }

/-- What is stored after `saveTrapUsers`. -/
def saveTrapUsers (s : App) (fails : Bool) (users : List V3Params) : Option (List V3Params) :=
  if s.secrets = false then s.remembered
  else if users = [] then (if fails then s.remembered else none)
  else if maxSecretLen < (marshal users).length ∨ fails then s.remembered
  else some users

def loadTrapUsers (s : App) (fails : Bool) : List V3Params :=
  if s.secrets = false ∨ fails then [] else s.remembered.getD []

/-- A call of `UpdateTrapUsers` restarts the listener. -/
def restarts (s : App) (users : List V3Params) : Bool :=
  s.running && !sameTrapUsers s.trapUsers (acceptedUsers add users)

def step (s : App) : Turn → Option App
  | .start p users =>
      if (s.calls p).isSome then none
      -- "trap listener is already running"
      else if s.running then some { s with wanted := acceptedUsers add users }
      else some ({ s with
        trapListener := some (acceptedUsers add users)
        trapUsers := acceptedUsers add users }.leaves p (acceptedUsers add users))
  | .update p users late =>
      if (s.calls p).isSome then none
      else if s.restarts add users = false then some (s.leaves p (acceptedUsers add users))
      else if late then some { s with
        trapListener := none
        unwinding := true
        wanted := acceptedUsers add users }
      else some ({ s with
        trapListener := some (acceptedUsers add users)
        unwinding := false
        trapUsers := acceptedUsers add users }.leaves p (acceptedUsers add users))
  | .save p fails =>
      match s.calls p with
      | none => none
      | some users => some { s with
          remembered := s.saveTrapUsers fails users
          calls := fun q => if q = p then none else s.calls q
          unsaved := if s.unsaved = some p then none else s.unsaved }
  | .stop late =>
      if s.running then some { s with trapListener := none, unwinding := late } else some s
  | .unwound => some { s with unwinding := false }
  | .died => some { s with trapListener := none }
  | .restart autoStart opens reads =>
      let s := { s with
        trapListener := none
        unwinding := false
        trapUsers := []
        secrets := opens
        calls := fun _ => none
        unsaved := none }
      if autoStart then
        let users := acceptedUsers add (s.loadTrapUsers !reads)
        some { s with trapListener := some users, trapUsers := users }
      else some s

/-- The credential store takes these users. -/
def Stores (s : App) (fails : Bool) (users : List V3Params) : Prop :=
  s.secrets = true ∧ fails = false ∧ (marshal users).length ≤ maxSecretLen

/-- What is stored is as it was, or was so already. -/
def Remembers (s : App) (users : List V3Params) : Prop := (s.remembered.getD []).Perm users

/-- A step that neither fails nor comes late, or that makes no difference: a call that is refused
gives the users there are; the last call's users are stored, or are there; an earlier call saves
before the last one, or to no effect; and no application ends with the last call's users unsaved,
or starts the listener without them. -/
def Kept (s : App) : Turn → Prop
  | .start _ users => s.running = false ∨ (acceptedUsers add users).Perm s.wanted
  | .update _ users late => late = false ∨ s.restarts add users = false ∨
      (acceptedUsers add users).Perm s.wanted
  | .save p fails => ∀ users, s.calls p = some users →
      if s.unsaved = some p then s.Stores fails users ∨ s.Remembers users
      else s.unsaved.isSome = true ∨ ¬ s.Stores fails users ∨ users.Perm s.wanted
  | .stop _ => True
  | .unwound => True
  | .died => True
  | .restart autoStart opens reads => (s.unsaved = none ∨ s.Remembers s.wanted) ∧
      (autoStart = true → (opens = true ∧ reads = true) ∨ s.wanted = [])

/-- **What is accepted and what is remembered are the accepted users of the last call**, and what
is remembered is accepted whole. -/
structure Exact (s : App) : Prop where
  accepts : ∀ users, s.trapListener = some users → users.Perm s.wanted
  remembers : s.Remembers s.wanted
  again : acceptedUsers add (s.remembered.getD []) = s.remembered.getD []

/-! ## What a step keeps -/

/-- The listener accepts what the last call wants, and the memory will have it once that call has
saved. -/
structure Follows (s : App) : Prop where
  wanted : Usable add s.wanted
  saves : ∀ p users, s.calls p = some users → Usable add users
  memory : Usable add (s.remembered.getD [])
  accepts : ∀ users, s.trapListener = some users → users.Perm s.wanted
  started : ∀ users, s.trapListener = some users → s.trapUsers = users
  pending : ∀ p, s.unsaved = some p → ∃ users, s.calls p = some users ∧ users.Perm s.wanted
  stored : s.unsaved = none → s.Remembers s.wanted

variable {add} {s t : App} {users : List V3Params}

theorem saveTrapUsers_of_stores {fails : Bool} (h : s.Stores fails users) :
    (s.saveTrapUsers fails users).getD [] = users := by
  obtain ⟨hsecrets, rfl, hlength⟩ := h
  have hpresent : ¬ s.secrets = false := by simp [hsecrets]
  have hfits : ¬ (maxSecretLen < (marshal users).length ∨ false = true) := by simp; omega
  rw [saveTrapUsers, if_neg hpresent, if_neg hfits]
  split
  · rename_i hnil
    rw [hnil]
    rfl
  · rfl

theorem saveTrapUsers_of_not_stores {fails : Bool} (h : ¬ s.Stores fails users) :
    s.saveTrapUsers fails users = s.remembered := by
  unfold saveTrapUsers
  split
  · rfl
  · rename_i hpresent
    have hsecrets : s.secrets = true := by simpa using hpresent
    by_cases hfails : fails = true
    · simp [hfails]
    · have hlong : maxSecretLen < (marshal users).length := by
        rw [← Nat.not_le]
        exact fun hle => h ⟨hsecrets, by simpa using hfails, hle⟩
      have hne : users ≠ [] := by
        rintro rfl
        exact absurd hlong (by decide)
      rw [if_neg hne, if_pos (.inl hlong)]

/-- The accepted users of a call take the place of the last one's. -/
theorem Follows.leaves (h : s.Follows add) {p : Nat} (husers : Usable add users)
    (haccepts : ∀ l, s.trapListener = some l → l.Perm users) : (s.leaves p users).Follows add where
  wanted := husers
  saves q l hl := by
    by_cases hq : q = p
    · obtain rfl : users = l := by simpa [App.leaves, hq] using hl
      exact husers
    · exact h.saves q l (by simpa [App.leaves, hq] using hl)
  memory := h.memory
  accepts := haccepts
  started := h.started
  pending q hq := by
    obtain rfl : p = q := Option.some.inj hq
    exact ⟨users, by simp [App.leaves], .refl _⟩
  stored hq := by cases hq

/-- A listener started with some users accepts them. -/
theorem Follows.listens (h : s.Follows add) {p : Nat} (husers : Usable add users) {unwinding : Bool}
    :
    ({ s with trapListener := some users, unwinding, trapUsers := users }.leaves p users).Follows
      add := by
  refine
    { wanted := husers
      saves := fun q l hl => ?_
      memory := h.memory
      accepts := fun l hl => Option.some.inj hl ▸ .refl _
      started := fun l hl => Option.some.inj hl
      pending := fun q hq => ?_
      stored := fun hq => by cases hq }
  · by_cases hq : q = p
    · obtain rfl : users = l := by simpa [App.leaves, hq] using hl
      exact husers
    · exact h.saves q l (by simpa [App.leaves, hq] using hl)
  · obtain rfl : p = q := Option.some.inj hq
    exact ⟨users, by simp [App.leaves], .refl _⟩

/-- A call that is refused leaves everything as it was, but for the listener it may have closed. -/
theorem Follows.refused (h : s.Follows add) (husers : Usable add users)
    (hsame : users.Perm s.wanted) {trapListener : Option (List V3Params)} {unwinding : Bool}
    (hl : trapListener = s.trapListener ∨ trapListener = none) :
    Follows add { s with trapListener, unwinding, wanted := users } := by
  refine
    { wanted := husers
      saves := h.saves
      memory := h.memory
      accepts := fun l hlist => ?_
      started := fun l hlist => ?_
      pending := fun q hq => ?_
      stored := fun hq => (h.stored hq).trans hsame.symm }
  · rcases hl with rfl | rfl
    · exact (h.accepts l hlist).trans hsame.symm
    · cases hlist
  · rcases hl with rfl | rfl
    · exact h.started l hlist
    · cases hlist
  · obtain ⟨l, hcall, hperm⟩ := h.pending q hq
    exact ⟨l, hcall, hperm.trans hsame.symm⟩

/-- The listener goes. -/
theorem Follows.closed (h : s.Follows add) {unwinding : Bool} :
    Follows add { s with trapListener := none, unwinding } :=
  { wanted := h.wanted
    saves := h.saves
    memory := h.memory
    accepts := fun _ hl => by cases hl
    started := fun _ hl => by cases hl
    pending := h.pending
    stored := h.stored }

theorem follows_save (h : s.Follows add) {p : Nat} {fails : Bool} (hok : s.Kept add (.save p fails))
    (ht : s.step add (.save p fails) = some t) : t.Follows add := by
  simp only [step] at ht
  split at ht
  · cases ht
  · rename_i users hcall
    obtain rfl := Option.some.inj ht
    have hkept := hok users hcall
    have husers := h.saves p users hcall
    -- what is stored now is what was, or these users
    have hmemory : Usable add ((s.saveTrapUsers fails users).getD []) := by
      by_cases hstores : s.Stores fails users
      · rw [saveTrapUsers_of_stores hstores]
        exact husers
      · rw [saveTrapUsers_of_not_stores hstores]
        exact h.memory
    refine
      { wanted := h.wanted
        saves := fun q l hl => ?_
        memory := hmemory
        accepts := h.accepts
        started := h.started
        pending := fun q hq => ?_
        stored := fun hq => ?_ }
    · by_cases hqp : q = p
      · simp [hqp] at hl
      · exact h.saves q l (by simpa [hqp] using hl)
    · dsimp only at hq
      split at hq
      · cases hq
      · rename_i hlast
        obtain ⟨l, hl, hperm⟩ := h.pending q hq
        have hqp : q ≠ p := by
          rintro rfl
          exact hlast hq
        exact ⟨l, by simpa [hqp] using hl, hperm⟩
    · show ((s.saveTrapUsers fails users).getD []).Perm s.wanted
      by_cases hlast : s.unsaved = some p
      · rw [if_pos hlast] at hkept
        obtain ⟨l, hl, hperm⟩ := h.pending p hlast
        obtain rfl : users = l := Option.some.inj (hcall.symm.trans hl)
        by_cases hstores : s.Stores fails users
        · rwa [saveTrapUsers_of_stores hstores]
        · rw [saveTrapUsers_of_not_stores hstores]
          exact (hkept.resolve_left hstores).trans hperm
      · have hnone : s.unsaved = none := by simpa [hlast] using hq
        rw [if_neg hlast, hnone] at hkept
        by_cases hstores : s.Stores fails users
        · rw [saveTrapUsers_of_stores hstores]
          exact (hkept.resolve_left (by simp)).resolve_left (not_not_intro hstores)
        · rw [saveTrapUsers_of_not_stores hstores]
          exact h.stored hnone

theorem follows_restart (h : s.Follows add) {autoStart opens reads : Bool}
    (hok : s.Kept add (.restart autoStart opens reads))
    (ht : s.step add (.restart autoStart opens reads) = some t) : t.Follows add := by
  have hremembers : s.Remembers s.wanted := by
    by_cases hnone : s.unsaved = none
    · exact h.stored hnone
    · exact hok.1.resolve_left hnone
  simp only [step] at ht
  split at ht
  · rename_i hauto
    obtain rfl := Option.some.inj ht
    have hload : (acceptedUsers add (loadTrapUsers { s with
        trapListener := none, unwinding := false, trapUsers := [], secrets := opens,
        calls := fun _ => none, unsaved := none } !reads)).Perm s.wanted := by
      rcases hok.2 hauto with ⟨rfl, rfl⟩ | hnil
      · -- the memory is read, and all of it is accepted
        have hread : loadTrapUsers { s with
            trapListener := none, unwinding := false, trapUsers := [], secrets := true,
            calls := fun _ => none, unsaved := none } (!true) = s.remembered.getD [] := rfl
        rw [hread, acceptedUsers_of_usable h.memory]
        exact hremembers
      · have hempty : s.remembered.getD [] = [] := by
          rw [Remembers, hnil] at hremembers
          exact List.perm_nil.mp hremembers
        have hread : loadTrapUsers { s with
            trapListener := none, unwinding := false, trapUsers := [], secrets := opens,
            calls := fun _ => none, unsaved := none } (!reads) = [] := by
          unfold loadTrapUsers
          split
          · rfl
          · exact hempty
        rw [hread, hnil]
        exact .refl _
    exact
      { wanted := h.wanted
        saves := fun _ _ hl => by cases hl
        memory := h.memory
        accepts := fun l hl => Option.some.inj hl ▸ hload
        started := fun l hl => Option.some.inj hl
        pending := fun _ hq => by cases hq
        stored := fun _ => hremembers }
  · obtain rfl := Option.some.inj ht
    exact
      { wanted := h.wanted
        saves := fun _ _ hl => by cases hl
        memory := h.memory
        accepts := fun _ hl => by cases hl
        started := fun _ hl => by cases hl
        pending := fun _ hq => by cases hq
        stored := fun _ => hremembers }

theorem follows_step (h : s.Follows add) {a : Turn} (hok : s.Kept add a)
    (ht : s.step add a = some t) : t.Follows add := by
  cases a with
  | start p users =>
      have husers : Usable add (acceptedUsers add users) := usable_acceptedUsers users
      simp only [step] at ht
      split at ht
      · cases ht
      · split at ht
        · rename_i hrunning
          obtain rfl := Option.some.inj ht
          exact h.refused husers (hok.resolve_left (by simp [hrunning])) (.inl rfl)
        · obtain rfl := Option.some.inj ht
          exact h.listens husers
  | update p users late =>
      have husers : Usable add (acceptedUsers add users) := usable_acceptedUsers users
      simp only [step] at ht
      split at ht
      · cases ht
      · split at ht
        · rename_i hrestarts
          obtain rfl := Option.some.inj ht
          refine h.leaves husers fun l hl => ?_
          -- a listener that goes on accepts the same set
          have hsame : sameTrapUsers s.trapUsers (acceptedUsers add users) = true := by
            simpa [restarts, running, hl] using hrestarts
          exact h.started l hl ▸ perm_of_sameTrapUsers hsame
        · rename_i hrestarts
          split at ht
          · rename_i hlate
            obtain rfl := Option.some.inj ht
            have hperm := (hok.resolve_left (by simp [hlate])).resolve_left hrestarts
            exact h.refused husers hperm (.inr rfl)
          · obtain rfl := Option.some.inj ht
            exact h.listens husers
  | save p fails => exact follows_save h hok ht
  | stop late =>
      simp only [step] at ht
      split at ht
      · obtain rfl := Option.some.inj ht
        exact h.closed
      · obtain rfl := Option.some.inj ht
        exact h
  | unwound =>
      obtain rfl := Option.some.inj ht
      exact ⟨h.wanted, h.saves, h.memory, h.accepts, h.started, h.pending, h.stored⟩
  | died =>
      obtain rfl := Option.some.inj ht
      exact h.closed
  | restart autoStart opens reads => exact follows_restart h hok ht

theorem Follows.exact (h : s.Follows add) (hquiet : ∀ p, s.calls p = none) : s.Exact add where
  accepts := h.accepts
  remembers := by
    cases hlast : s.unsaved with
    | none => exact h.stored hlast
    | some p =>
        obtain ⟨users, hcall, _⟩ := h.pending p hlast
        rw [hquiet p] at hcall
        cases hcall
  again := acceptedUsers_of_usable h.memory

end App

/-- **A withdrawn user is not accepted again**: where no step fails or comes late, every state in
which the calls have returned accepts and remembers exactly the users the last one accepted. -/
theorem exact_of_run (add : Add) {secrets : Bool} {turns : List Turn} {t : App}
    (hrun : Run (App.step add) (App.Kept add) { secrets } turns t) (hquiet : ∀ p, t.calls p = none) :
    t.Exact add := by
  have hnil : Usable add [] := ⟨List.nodup_nil, by simp, by simp, by simp⟩
  have h : App.Follows add { secrets } :=
    { wanted := hnil
      saves := fun _ _ hl => by cases hl
      memory := hnil
      accepts := fun _ hl => by cases hl
      started := fun _ hl => by cases hl
      pending := fun _ hq => by cases hq
      stored := fun _ => .refl _ }
  exact (hrun.invariant h fun _ _ _ h => App.follows_step h).exact hquiet

/-! ## A set that is not remembered -/

/-- A user that only has a name. -/
def named (name : String) : V3Params where
  user := octets name
  secLevel := octets "NoAuthNoPriv"

/-- A table that takes every user. -/
def takesAll : Add := fun _ _ => .ok ()

/-- A user is taken back and the application starts again. -/
theorem exact_of_run_restart :
    ∃ t, Run (App.step takesAll) (App.Kept takesAll) { secrets := true }
        [.start 0 [named "alice", named "bob"], .save 0 false, .update 0 [named "bob"] false,
          .save 0 false, .restart true true true] t ∧
      t.trapListener = some [named "bob"] ∧ t.Exact takesAll := by
  have hrun : ∃ t, Run (App.step takesAll) (App.Kept takesAll) { secrets := true }
      [.start 0 [named "alice", named "bob"], .save 0 false, .update 0 [named "bob"] false,
        .save 0 false, .restart true true true] t ∧
      t.trapListener = some [named "bob"] ∧ ∀ p, t.calls p = none := by
    refine ⟨_, .head (.inl rfl) rfl (.head ?_ rfl (.head (.inl rfl) rfl (.head ?_ rfl
      (.head ⟨.inl rfl, fun _ => .inl ⟨rfl, rfl⟩⟩ rfl (.refl _))))), by decide +kernel, fun _ => rfl⟩
    all_goals
      intro users husers
      obtain rfl := Option.some.inj husers
      exact .inl ⟨rfl, rfl, by decide +kernel⟩
  obtain ⟨t, hrun, hlistener, hquiet⟩ := hrun
  exact ⟨t, hrun, hlistener, exact_of_run takesAll hrun hquiet⟩

/-- **The first of two calls saves last**, and the user the second one took back is accepted by the
next listener. -/
theorem overtaken_remembered :
    ∃ t, Run (App.step takesAll) (fun _ _ => True) { secrets := true }
        [.start 0 [named "alice"], .update 1 [named "bob"] false, .save 1 false, .save 0 false,
          .restart true true true] t ∧
      (∀ p, t.calls p = none) ∧ t.wanted = [named "bob"] ∧
      t.trapListener = some [named "alice"] ∧ ¬ t.Exact takesAll := by
  refine ⟨_, run_of_exec rfl, fun _ => rfl, by decide +kernel, by decide +kernel, fun h => ?_⟩
  have hmem := (h.accepts [named "alice"] (by decide +kernel)).mem_iff (a := named "alice")
  exact absurd (hmem.mp List.mem_cons_self) (by decide +kernel)

end SnmpLens.Traps
