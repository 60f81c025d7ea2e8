import SnmpLens.Lib.Machine
import SnmpLens.Lib.Strings

/-!
# One monitoring session

A session and everything that touches it: the calls of `internal/app/monitor.go`,
`MonitorDeleteSession` of `internal/app/app.go`, and `Start`, `Stop` and `loop` of
`pkg/monitor/scheduler.go`. Its row is in the database and its credentials are in the
secret store; the scheduler's map names the loop that polls it, and a loop that is taken
off the map goes on until it sees that it has been cancelled.

Any number of calls are in progress at a time. A step is one call of the database or of the
credential store, one section under the scheduler's mutex, or one move of a poll loop, so a
run is any interleaving of them. The session has an OID and a target, and `a.storage` and
`a.scheduler` are there.
-/

namespace SnmpLens.Sessions

open Utf8 Strings Machine

/-! ## The connection and its halves -/

/-- `snmp.V3Params`. -/
structure V3Params where
  user : Octets := []
  authProto : Octets := []
  authPass : Octets := []
  privProto : Octets := []
  privPass : Octets := []
  secLevel : Octets := []
  contextName : Octets := []
  deriving DecidableEq

structure MonitorConnection where
  port : Int := 0
  timeoutSec : Int := 0
  retries : Int := 0
  community : Octets := []
  v3 : V3Params := {}
  profile : Octets := []

/-- `storage.SessionConn`. -/
structure SessionConn where
  port : Int := 0
  timeoutSec : Int := 0
  retries : Int := 0
  v3User : Octets := []
  v3AuthProto : Octets := []
  v3PrivProto : Octets := []
  v3SecLevel : Octets := []
  v3ContextName : Octets := []
  profile : Octets := []

structure SessionCreds where
  community : Octets := []
  authPass : Octets := []
  privPass : Octets := []
  deriving DecidableEq

/-- What may be stored in the clear and what may not. -/
def MonitorConnection.split (c : MonitorConnection) : SessionConn × SessionCreds :=
  ({ port := c.port
     timeoutSec := c.timeoutSec
     retries := c.retries
     v3User := c.v3.user
     v3AuthProto := c.v3.authProto
     v3PrivProto := c.v3.privProto
     v3SecLevel := c.v3.secLevel
     v3ContextName := c.v3.contextName
     profile := c.profile },
   { community := c.community
     authPass := c.v3.authPass
     privPass := c.v3.privPass })

/-- What a poll loop asks with. -/
structure Fetch where
  version : Octets
  community : Octets
  v3 : V3Params
  port : Int
  timeout : Int
  retries : Int
  deriving DecidableEq

/-- `buildFetch`, from the version and the connection of the row and from the credentials. -/
def buildFetch (version : Octets) (conn : Option SessionConn) (creds : SessionCreds) : Fetch :=
  let conn := conn.getD {}
  { version
    community := creds.community
    v3 :=
      { user := conn.v3User
        authProto := conn.v3AuthProto
        authPass := creds.authPass
        privProto := conn.v3PrivProto
        privPass := creds.privPass
        secLevel := conn.v3SecLevel
        contextName := conn.v3ContextName }
    port := conn.port
    timeout := conn.timeoutSec
    retries := conn.retries }

/-- What a call was given. -/
def given (version : Octets) (c : MonitorConnection) : Fetch where
  version := version
  community := c.community
  v3 := c.v3
  port := c.port
  timeout := c.timeoutSec
  retries := c.retries

/-- **The halves of a connection make it whole.** -/
theorem buildFetch_split (version : Octets) (c : MonitorConnection) :
    buildFetch version (some c.split.1) c.split.2 = given version c := rfl

/-! ## The session -/

structure Row where
  active : Bool
  snmpVersion : Octets
  conn : Option SessionConn

/-- A goroutine in `loop`. -/
structure Loop where
  fetch : Fetch
  cancelled : Bool := false
  /-- It is inside `safeTick`. -/
  polling : Bool := false
  /-- `done` is closed. -/
  ended : Bool := false

/-- Whether a piece of code is reached in a call of its own or in `MonitorUpdateConnection`. -/
inductive Within where
  | own
  | update
  deriving DecidableEq

/-- Where a call is: what it is about to do. -/
inductive Call where
  | idle
  /-- `MonitorCreateSession` inserts the row. -/
  | creating (version : Octets) (c : MonitorConnection)
  /-- `MonitorUpdateConnection` updates the row. -/
  | replacing (version : Octets) (c : MonitorConnection)
  /-- `saveSessionCreds`. What was given is now known, and whether the row has taken it. -/
  | saving (w : Within) (kept : Bool) (version : Octets) (c : MonitorConnection)
  /-- `IsRunning`. -/
  | checking
  /-- `Stop` takes the handle off the map. -/
  | removing (w : Within)
  | cancelling (w : Within) (i : Nat)
  /-- `Stop` waits for `done`. -/
  | waiting (w : Within) (i : Nat)
  /-- `findSession`. -/
  | finding (w : Within)
  /-- `loadSessionCreds`, the row having been read. -/
  | loading (w : Within) (version : Octets) (conn : Option SessionConn)
  /-- `Start`. -/
  | starting (w : Within) (fetch : Fetch)
  /-- `UpdateSession`. -/
  | marking (active : Bool)
  /-- `MonitorDeleteSession` deletes the credentials. -/
  | forgetting
  /-- It deletes the row. -/
  | deleting

/-- A session, and the calls and the loops that are about it. -/
structure Session where
  row : Option Row := none
  /-- There is a credential store. -/
  present : Bool := true
  secrets : Option SessionCreds := none
  /-- The loop in the scheduler's map. -/
  running : Option Nat := none
  /-- Every loop there has been, the oldest first. -/
  loops : List Loop := []
  calls : Nat → Call := fun _ => .idle
  /-- The row is as `MonitorCreateSession` wrote it, active, and the session has been neither
  started nor stopped. -/
  created : Bool := false
  /-- What was given in the calls that report success: from `saveSessionCreds` on none fails. -/
  reported : List Fetch := []
  /-- A call reports success that has not kept both halves. -/
  halved : Bool := false

/-- What is done next: a call begins, or goes a step with what the stores answer, or a loop
moves. -/
inductive Act where
  | create (p : Nat) (version : Octets) (c : MonitorConnection)
  | start (p : Nat)
  | stop (p : Nat)
  | update (p : Nat) (version : Octets) (c : MonitorConnection)
  | delete (p : Nat)
  | go (p : Nat) (fails : Bool)
  /-- A loop goes into a round. One that has been cancelled may, and leaves it at once. -/
  | enter (i : Nat)
  | leave (i : Nat)
  /-- A loop sees that it has been cancelled. -/
  | finish (i : Nat)

namespace Within

/-- What follows `saveSessionCreds`. -/
def saved : Within → Call
  | own => .idle
  | update => .checking

/-- What follows `Stop`. -/
def stopped : Within → Call
  | own => .marking false
  | update => .finding .update

/-- What follows `Start`. -/
def started : Within → Call
  | own => .marking true
  | update => .idle

end Within

namespace Session

/-- A call gets to another line. -/
def at_ (p : Nat) (c : Call) (s : Session) : Session :=
  { s with calls := fun q => if q = p then c else s.calls q }

/-- A call begins. -/
def begin_ (p : Nat) (c : Call) (s : Session) : Option Session :=
  match s.calls p with
  | .idle => some (s.at_ p c)
  | _ => none

/-- What the credential store holds after `saveSessionCreds`. -/
def saveSessionCreds (s : Session) (fails : Bool) (creds : SessionCreds) : Option SessionCreds :=
  if s.present = false ∨ fails then s.secrets
  else if creds.community = [] ∧ creds.authPass = [] ∧ creds.privPass = [] then none
  else some creds

def loadSessionCreds (s : Session) (fails : Bool) : SessionCreds :=
  if s.present = false ∨ fails then {} else s.secrets.getD {}

/-- What `loadSessionCreds` would read once `saveSessionCreds` is done. -/
def savedCreds (s : Session) (fails : Bool) (creds : SessionCreds) : SessionCreds :=
  loadSessionCreds { s with secrets := s.saveSessionCreds fails creds } false

/-- `COALESCE(NULLIF(?, ''), snmp_version)`. -/
def coalesce (version stored : Octets) : Octets := if version = [] then stored else version

/-- A call goes a step. -/
def go (p : Nat) (fails : Bool) (s : Session) : Option Session :=
  match s.calls p with
  | .idle => none
  | .creating version c =>
      if fails ∨ s.row.isSome then some (s.at_ p .idle)
      else some { s.at_ p (.saving .own true version c) with
        row := some { active := true, snmpVersion := version, conn := some c.split.1 }
        created := true }
  | .replacing version c =>
      if fails then some (s.at_ p .idle)
      else
        match s.row with
        | none => some (s.at_ p (.saving .update false version c))
        | some r => some { s.at_ p (.saving .update true (coalesce version r.snmpVersion) c) with
            row := some { r with
              snmpVersion := coalesce version r.snmpVersion
              conn := some c.split.1 } }
  | .saving w kept version c => some { s.at_ p w.saved with
      secrets := s.saveSessionCreds fails c.split.2
      reported := given version c :: s.reported
      halved := s.halved || !kept || decide (s.savedCreds fails c.split.2 ≠ c.split.2) }
  | .checking =>
      match s.running with
      | some _ => some (s.at_ p (.removing .update))
      | none => some (s.at_ p .idle)
  | .removing w =>
      match s.running with
      | some i => some { s.at_ p (.cancelling w i) with running := none }
      | none => some (s.at_ p w.stopped)
  | .cancelling w i => some { s.at_ p (.waiting w i) with
      loops := s.loops.modify i fun l => { l with cancelled := true } }
  | .waiting w i =>
      if s.loops[i]?.all (·.ended) then some (s.at_ p w.stopped) else none
  | .finding w =>
      if fails then some (s.at_ p .idle)
      else
        match s.row with
        | none => some (s.at_ p .idle)
        | some r => some (s.at_ p (.loading w r.snmpVersion r.conn))
  | .loading w version conn =>
      some (s.at_ p (.starting w (buildFetch version conn (s.loadSessionCreds fails))))
  | .starting w fetch =>
      match s.running with
      | some _ => some (s.at_ p w.started)
      | none => some { s.at_ p w.started with
          running := some s.loops.length
          loops := s.loops ++ [{ fetch }]
          created := false }
  | .marking active =>
      if fails then some (s.at_ p .idle)
      else some { s.at_ p .idle with
        row := s.row.map fun r => { r with active }
        created := false }
  | .forgetting =>
      if s.present = false then some (s.at_ p .deleting)
      else if fails then some (s.at_ p .idle)
      else some { s.at_ p .deleting with secrets := none }
  | .deleting =>
      if fails then some (s.at_ p .idle)
      else some { s.at_ p .idle with row := none, created := false }

/-- A loop moves, if it may. -/
def move (i : Nat) (may : Loop → Bool) (f : Loop → Loop) (s : Session) : Option Session :=
  if s.loops[i]?.any may then some { s with loops := s.loops.modify i f } else none

/-- The versions `MonitorUpdateConnection` takes. -/
def versions : List Octets := [[], octets "v1", octets "v2c", octets "v3"]

def step (s : Session) : Act → Option Session
  | .create p version c => s.begin_ p (.creating version c)
  | .start p => s.begin_ p (.finding .own)
  | .stop p => s.begin_ p (.removing .own)
  | .update p version c =>
      s.begin_ p (if version ∈ versions then .replacing version c else .idle)
  | .delete p => s.begin_ p .forgetting
  | .go p fails => s.go p fails
  | .enter i => s.move i (fun l => !l.ended && !l.polling) fun l => { l with polling := true }
  | .leave i => s.move i (fun l => l.polling) fun l => { l with polling := false }
  | .finish i =>
      s.move i (fun l => l.cancelled && !l.polling && !l.ended) fun l => { l with ended := true }

/-- Every call has returned. -/
def Quiet (s : Session) : Prop := ∀ p, s.calls p = .idle

/-! ## Where the calls are -/

variable {s : Session} {p : Nat} {c : Call}

theorem begin_cases {t : Session} (h : s.begin_ p c = some t) : s.calls p = .idle ∧ t = s.at_ p c := by
  unfold begin_ at h
  split at h
  · rename_i hp
    exact ⟨hp, (Option.some.inj h).symm⟩
  · cases h

@[simp] theorem at_calls_self : (s.at_ p c).calls p = c := by simp [at_]

theorem at_calls_of_ne {q : Nat} (h : q ≠ p) : (s.at_ p c).calls q = s.calls q := by simp [at_, h]

/-- What is so of some call stays so, unless it was so of the one that moves. -/
theorem exists_at {P : Call → Prop} (h : ∃ q, P (s.calls q)) (hp : P (s.calls p) → P c) :
    ∃ q, P ((s.at_ p c).calls q) := by
  obtain ⟨q, hq⟩ := h
  by_cases hqp : q = p
  · subst hqp
    exact ⟨q, by rw [at_calls_self]; exact hp hq⟩
  · exact ⟨q, by rw [at_calls_of_ne hqp]; exact hq⟩

/-- What is so of the other calls and of the one that moves is so of every call. -/
theorem forall_at_of_ne {P : Call → Prop} (h : ∀ q, q ≠ p → P (s.calls q)) (hp : P c) :
    ∀ q, P ((s.at_ p c).calls q) := by
  intro q
  by_cases hqp : q = p
  · subst hqp
    rw [at_calls_self]
    exact hp
  · rw [at_calls_of_ne hqp]
    exact h q hqp

/-- What is so of every call stays so, if it is of the one that moves. -/
theorem forall_at {P : Call → Prop} (h : ∀ q, P (s.calls q)) (hp : P c) :
    ∀ q, P ((s.at_ p c).calls q) :=
  forall_at_of_ne (fun q _ => h q) hp

theorem move_cases {i : Nat} {may : Loop → Bool} {f : Loop → Loop} {t : Session}
    (h : s.move i may f = some t) :
    ∃ l, s.loops[i]? = some l ∧ may l = true ∧ t = { s with loops := s.loops.modify i f } := by
  unfold move at h
  split at h
  · rename_i hany
    cases hl : s.loops[i]? with
    | none =>
        rw [hl] at hany
        cases hany
    | some l =>
        rw [hl] at hany
        exact ⟨l, rfl, hany, (Option.some.inj h).symm⟩
  · cases h

theorem getElem?_modify_loop {ls : List Loop} {i j : Nat} {f : Loop → Loop} {l : Loop}
    (h : (ls.modify i f)[j]? = some l) : ∃ m, ls[j]? = some m ∧ l = if j = i then f m else m := by
  rw [List.getElem?_modify] at h
  cases hm : ls[j]? with
  | none =>
      rw [hm] at h
      cases h
  | some m =>
      rw [hm] at h
      refine ⟨m, rfl, ?_⟩
      have := Option.some.inj h
      by_cases hij : j = i
      · subst hij
        simpa using this.symm
      · simp only [if_neg (Ne.symm hij)] at this
        rw [if_neg hij]
        exact this.symm

/-- What is so of every loop stays so, if it does of the one that moves. -/
theorem forall_modify {ls : List Loop} {i : Nat} {f : Loop → Loop} {P : Loop → Prop}
    (h : ∀ l ∈ ls, P l) (hf : ∀ l, P l → P (f l)) : ∀ l ∈ ls.modify i f, P l := by
  intro l hl
  obtain ⟨j, hj⟩ := List.mem_iff_getElem?.mp hl
  obtain ⟨m, hm, rfl⟩ := getElem?_modify_loop hj
  have hP := h m (List.mem_of_getElem? hm)
  split
  · exact hf m hP
  · exact hP

end Session

end SnmpLens.Sessions
