import SnmpLens.Simulator.Usm

/-!
# What an SNMPv3 message has to pass

Whether a message sees the tree or writes to it is said by comparing two agents that differ in
their trees: a message that is answered the same by both, and leaves each its own, sees nothing
(`Blind`). Every exit of `answerV3` but its last is blind and sends a Report at most (`Closed`).
The last answers a request at its user's level from the tree, and a request below it with an
error and the variables it came with.
-/

namespace SnmpLens.Simulator

open Utf8

namespace V3Agent

/-- The agent, with another tree. -/
def withTree (a : V3Agent) (t : Tree AgentClock) : V3Agent := { a with tree := t }

/-- What is done does not depend on the tree, and leaves it as it is. -/
def Blind (f : V3Agent → V3Agent × Option Octets) (a : V3Agent) : Prop :=
  ∀ t, f (a.withTree t) = ((f a).1.withTree t, (f a).2)

/-- The boots are this engine's, and the time is near its own. -/
def InWindow (a : V3Agent) (h : V3Header) (c : Clock) : Prop :=
  a.boots.toNat < maxBoots ∧ h.boots = a.boots.toNat ∧
    -timeWindow ≤ h.time - (engineTime c).toNat ∧ h.time - (engineTime c).toNat ≤ timeWindow

section

variable {ε : Type} (g : Gosnmp ε) (verifies : UsmSecurityParameters → Octets → Prop)

/-- A message that comes from one of the agent's users, and is for the agent's only context. -/
structure Genuine (a : V3Agent) (m : Moment) (msg : Octets) (h : V3Header) (u : V3User)
    (req : V3Packet) : Prop where
  peeked : peekV3 msg = some (.ok h)
  engine : h.engineID = a.engineID
  user : a.users h.user = some u
  opened : g.unmarshalTrap h.level (u.params a.engineID h.level) msg = .packet req
  digest : authenticates h.level → verifies (u.params a.engineID h.level) msg
  window : authenticates h.level → a.InWindow h m.clock
  context : (req.contextEngineID = [] ∨ req.contextEngineID = a.engineID) ∧ req.contextName = []

/-- The octets of a Report. -/
def IsReport (out : Octets) : Prop :=
  ∃ pkt : V3Packet, pkt.pduType = reportPDU ∧ g.marshalMsg pkt = .ok out

/-- The octets of a Response that is an error, with no variables but the request's own. -/
def IsRefusal (req : V3Packet) (out : Octets) : Prop :=
  ∃ pkt : V3Packet, pkt.pduType = getResponse ∧ pkt.error ≠ .noError ∧ pkt.vars <+: req.vars ∧
    g.marshalMsg pkt = .ok out

/-- Blind, and a Report at most. -/
structure Closed (f : V3Agent → V3Agent × Option Octets) (a : V3Agent) : Prop where
  blind : Blind f a
  report : ∀ out, (f a).2 = some out → IsReport g out

end

variable {ε : Type} {g : Gosnmp ε} {verifies : UsmSecurityParameters → Octets → Prop}
  {a : V3Agent} {m : Moment} {h : V3Header} {u : V3User} {req : V3Packet} {msg : Octets}

theorem Blind.tree_eq {f : V3Agent → V3Agent × Option Octets} (hf : Blind f a) :
    (f a).1.tree = a.tree := by
  have hself := congrArg (fun p => p.1.tree) (hf a.tree)
  exact hself

theorem Blind.of_eq {f f' : V3Agent → V3Agent × Option Octets} (hf : Blind f' a)
    (heq : ∀ t, f (a.withTree t) = f' (a.withTree t)) : Blind f a := by
  have hself : f a = f' a := heq a.tree
  intro t
  rw [heq t, hf t, hself]

theorem Closed.of_eq {f f' : V3Agent → V3Agent × Option Octets} (hf : Closed g f' a)
    (heq : ∀ t, f (a.withTree t) = f' (a.withTree t)) : Closed g f a := by
  have hself : f a = f' a := heq a.tree
  refine ⟨hf.blind.of_eq heq, ?_⟩
  rw [hself]
  exact hf.report

@[simp] theorem withTree_engineID (a : V3Agent) (t : Tree AgentClock) :
    (a.withTree t).engineID = a.engineID := rfl

@[simp] theorem withTree_maxSize (a : V3Agent) (t : Tree AgentClock) :
    (a.withTree t).maxSize = a.maxSize := rfl

@[simp] theorem withTree_add (a : V3Agent) (t : Tree AgentClock) (s : Stat) (n : UInt32) :
    (a.withTree t).add s n = (a.add s n).withTree t := rfl

@[simp] theorem withTree_stats (a : V3Agent) (t : Tree AgentClock) :
    (a.withTree t).stats = a.stats := rfl

@[simp] theorem withTree_inTimeWindow (a : V3Agent) (t : Tree AgentClock) :
    (a.withTree t).inTimeWindow = a.inTimeWindow := rfl

@[simp] theorem withTree_v3Packet (a : V3Agent) (t : Tree AgentClock) :
    (a.withTree t).v3Packet = a.v3Packet := rfl

/-! ## The exits -/

theorem closed_silent (s : Stat) : Closed g (·.silent s) a := by
  refine ⟨fun t => rfl, ?_⟩
  intro out hout
  cases hout

theorem closed_report (m : Moment) (h : V3Header) (u : Option V3User) (level : UInt8)
    (requestID : UInt32) (name : String) (counter : Stat) :
    Closed g (·.report g m h u level requestID name counter) a := by
  by_cases hflag : h.flags &&& reportable = 0
  · have hnone : ∀ a : V3Agent, a.report g m h u level requestID name counter
        = (a.add counter 1, none) := fun _ => if_pos hflag
    refine ⟨fun t => ?_, ?_⟩
    · rw [hnone, hnone]
      rfl
    · intro out hout
      rw [hnone] at hout
      cases hout
  · refine ⟨fun t => ?_, ?_⟩
    · -- the packet has the engine and the counter in it, and nothing of the tree
      simp only [report, if_neg hflag, withTree_add, withTree_stats, withTree_v3Packet]
      split <;> rfl
    · intro out hout
      unfold report at hout
      dsimp only at hout
      rw [if_neg hflag] at hout
      split at hout
      · rename_i hmarshal
        cases hout
        exact ⟨_, rfl, hmarshal⟩
      · cases hout

theorem closed_authFailed (m : Moment) (h : V3Header) (name : String) (counter : Stat) :
    Closed g (·.authFailed.report g m h none noAuthNoPriv h.requestID name counter) a := by
  have hreport := @closed_report _ g a.authFailed m h none noAuthNoPriv h.requestID name counter
  exact ⟨hreport.blind, hreport.report⟩

theorem closed_refuse (m : Moment) (h : V3Header) (u : V3User) (level : UInt8) (msg : Octets) :
    Closed g (·.refuse g m h u level msg) a := by
  by_cases hplain : level = noAuthNoPriv
  · exact (closed_silent .parseErrors).of_eq fun t => if_pos hplain
  · cases hagain : g.snmpDecodePacket level (u.params a.engineID level) msg with
    | panic =>
        refine (closed_silent .faults).of_eq fun t => ?_
        simp only [refuse, if_neg hplain, withTree_engineID, hagain]
    | packet pkt =>
        refine (closed_authFailed m h ".1.3.6.1.6.3.15.1.1.5.0" .wrongDigests).of_eq fun t => ?_
        simp only [refuse, if_neg hplain, withTree_engineID, hagain]
    | error =>
        by_cases hpriv : level = authPriv
        · refine (closed_report m h none noAuthNoPriv h.requestID ".1.3.6.1.6.3.15.1.1.6.0"
            .decryptionErrors).of_eq fun t => ?_
          simp only [refuse, if_neg hplain, withTree_engineID, hagain, if_pos hpriv]
        · refine (closed_silent .parseErrors).of_eq fun t => ?_
          simp only [refuse, if_neg hplain, withTree_engineID, hagain, if_neg hpriv]

/-! ## The checks -/

/-- A request that is not answered is for no PDU that is taken, or for no context there is. -/
theorem answerRequest_cases (a : V3Agent) (m : Moment) (h : V3Header) (u : V3User)
    (req : V3Packet) :
    Closed g (·.answerRequest g m h u req) a ∨
      ((req.contextEngineID = [] ∨ req.contextEngineID = a.engineID) ∧ req.contextName = []) ∧
        ∀ t, (a.withTree t).answerRequest g m h u req = (a.withTree t).respond g m h u req := by
  by_cases hpdu : req.pduType ∉ [getRequest, getNextRequest, getBulkRequest, setRequest]
  · exact .inl ((closed_silent .unknownPDUHandlers).of_eq fun t => if_pos hpdu)
  · by_cases hengine : req.contextEngineID ≠ [] ∧ req.contextEngineID ≠ a.engineID
    · refine .inl ((closed_report m h (some u) h.level req.requestID ".1.3.6.1.6.3.11.2.1.3.0"
        .unknownPDUHandlers).of_eq fun t => ?_)
      exact (if_neg hpdu).trans (if_pos hengine)
    · by_cases hname : req.contextName ≠ []
      · refine .inl ((closed_report m h (some u) h.level req.requestID ".1.3.6.1.6.3.12.1.5.0"
          .unknownContexts).of_eq fun t => ?_)
        exact (if_neg hpdu).trans ((if_neg hengine).trans (if_pos hname))
      · refine .inr ⟨⟨by tauto, not_not.mp hname⟩, fun t => ?_⟩
        exact (if_neg hpdu).trans ((if_neg hengine).trans (if_neg hname))

theorem inWindow_of_check {c : Clock} (hin : a.inTimeWindow h c = true) : a.InWindow h c := by
  unfold inTimeWindow at hin
  split at hin
  · cases hin
  · rename_i hboots
    simp only [Bool.and_eq_true, beq_iff_eq, decide_eq_true_eq] at hin
    exact ⟨by omega, hin.1.1, hin.1.2, hin.2⟩

theorem ne_noAuthNoPriv {level : UInt8} (hlevel : authenticates level) : level ≠ noAuthNoPriv := by
  rintro rfl
  cases hlevel

/-- A message for a user is opened at a level the user has, and in the window where that signs. -/
theorem answerUser_cases (a : V3Agent) (m : Moment) (h : V3Header) (u : V3User) (msg : Octets) :
    Closed g (·.answerUser g m h u msg) a ∨
      ∃ req, h.level ≤ u.level ∧
        g.unmarshalTrap h.level (u.params a.engineID h.level) msg = .packet req ∧
        (authenticates h.level → a.InWindow h m.clock) ∧
        ∀ t, (a.withTree t).answerUser g m h u msg = (a.withTree t).answerRequest g m h u req := by
  by_cases hlevel : u.level < h.level
  · exact .inl ((closed_report m h none noAuthNoPriv h.requestID ".1.3.6.1.6.3.15.1.1.1.0"
      .unsupportedSecLevels).of_eq fun t => if_pos hlevel)
  · cases hopen : g.unmarshalTrap h.level (u.params a.engineID h.level) msg with
    | panic =>
        refine .inl ((closed_silent .faults).of_eq fun t => ?_)
        simp only [answerUser, if_neg hlevel, withTree_engineID, hopen]
    | error =>
        refine .inl ((closed_refuse m h u h.level msg).of_eq fun t => ?_)
        simp only [answerUser, if_neg hlevel, withTree_engineID, hopen]
    | packet req =>
        by_cases hlate : h.level ≠ noAuthNoPriv ∧ !a.inTimeWindow h m.clock
        · refine .inl ((closed_report m h (some u) authNoPriv req.requestID
            ".1.3.6.1.6.3.15.1.1.2.0" .notInTimeWindows).of_eq fun t => ?_)
          simp only [answerUser, if_neg hlevel, withTree_engineID, hopen, withTree_inTimeWindow]
          exact if_pos hlate
        · refine .inr ⟨req, UInt8.not_lt.mp hlevel, rfl, fun hsigned => ?_, fun t => ?_⟩
          · have hin : ¬ (!a.inTimeWindow h m.clock) = true :=
              fun hout => hlate ⟨ne_noAuthNoPriv hsigned, hout⟩
            exact inWindow_of_check (by simpa using hin)
          · simp only [answerUser, if_neg hlevel, withTree_engineID, hopen, withTree_inTimeWindow]
            exact if_neg hlate

theorem answerV3_known (hdigest : ∀ level params msg req, authenticates level →
      g.unmarshalTrap level params msg = .packet req → verifies params msg)
    (hpeek : peekV3 msg = some (.ok h)) (hengine : h.engineID = a.engineID)
    (hknown : ∀ t, (a.withTree t).answerV3 g m msg =
      match a.users h.user with
      | none =>
          (a.withTree t).authFailed.report g m h none noAuthNoPriv h.requestID
            ".1.3.6.1.6.3.15.1.1.3.0" .unknownUserNames
      | some u => (a.withTree t).answerUser g m h u msg) :
    Closed g (·.answerV3 g m msg) a ∨
      ∃ h u req, Genuine g verifies a m msg h u req ∧ h.level ≤ u.level ∧
        ∀ t, (a.withTree t).answerV3 g m msg = (a.withTree t).respond g m h u req := by
  cases huser : a.users h.user with
  | none =>
      refine .inl ((closed_authFailed m h ".1.3.6.1.6.3.15.1.1.3.0" .unknownUserNames).of_eq ?_)
      intro t
      rw [hknown t, huser]
  | some u =>
      have hknown : ∀ t, (a.withTree t).answerV3 g m msg = (a.withTree t).answerUser g m h u msg := by
        intro t
        rw [hknown t, huser]
      rcases answerUser_cases a m h u msg with hclosed | ⟨req, hlevel, hopen, hwindow, hrequest⟩
      · exact .inl (hclosed.of_eq hknown)
      · rcases answerRequest_cases a m h u req with hclosed | ⟨hcontext, hrespond⟩
        · exact .inl (hclosed.of_eq fun t => (hknown t).trans (hrequest t))
        · refine .inr ⟨h, u, req, ?_, hlevel, fun t => ?_⟩
          · exact
              { peeked := hpeek
                engine := hengine
                user := huser
                opened := hopen
                digest := fun hsigned => hdigest _ _ _ _ hsigned hopen
                window := hwindow
                context := hcontext }
          · rw [hknown t, hrequest t, hrespond t]

/-- **Whatever fails a check is closed**, and what is left is genuine. -/
theorem answerV3_cases (hdigest : ∀ level params msg req, authenticates level →
      g.unmarshalTrap level params msg = .packet req → verifies params msg)
    (a : V3Agent) (m : Moment) (msg : Octets) :
    Closed g (·.answerV3 g m msg) a ∨
      ∃ h u req, Genuine g verifies a m msg h u req ∧ h.level ≤ u.level ∧
        ∀ t, (a.withTree t).answerV3 g m msg = (a.withTree t).respond g m h u req := by
  cases hpeek : peekV3 msg with
  | none =>
      refine .inl ((closed_silent .faults).of_eq fun t => ?_)
      simp only [answerV3, hpeek]
  | some read =>
      cases read with
      | error e =>
          refine .inl ((closed_silent .parseErrors).of_eq fun t => ?_)
          simp only [answerV3, hpeek]
      | ok h =>
          by_cases hmodel : h.model ≠ 3
          · refine .inl ((closed_silent .unknownSecurityModels).of_eq fun t => ?_)
            simp only [answerV3, hpeek]
            exact if_pos hmodel
          · by_cases hlevel : h.level ∉ [noAuthNoPriv, authNoPriv, authPriv]
            · refine .inl ((closed_silent .invalidMsgs).of_eq fun t => ?_)
              simp only [answerV3, hpeek]
              exact (if_neg hmodel).trans (if_pos hlevel)
            · by_cases hengine : h.engineID ≠ a.engineID
              · refine .inl ((closed_report m h none noAuthNoPriv h.requestID
                  ".1.3.6.1.6.3.15.1.1.4.0" .unknownEngineIDs).of_eq fun t => ?_)
                simp only [answerV3, hpeek]
                exact (if_neg hmodel).trans ((if_neg hlevel).trans (if_pos hengine))
              · refine answerV3_known hdigest hpeek (not_not.mp hengine) fun t => ?_
                simp only [answerV3, hpeek]
                exact (if_neg hmodel).trans ((if_neg hlevel).trans (if_neg hengine))

/-! ## Answers -/

/-- What is sent is the answer, or its first variables, or `tooBig`. -/
theorem send_cases {ans : Answer} {out : Octets} (hout : (a.send g m h u req ans).2 = some out) :
    ∃ pkt : V3Packet, pkt.pduType = getResponse ∧ g.marshalMsg pkt = .ok out ∧
      (pkt.error = ans.status ∧ pkt.vars <+: ans.vars ∨ pkt.error = .tooBig ∧ pkt.vars = []) := by
  unfold send at hout
  dsimp only at hout
  split at hout
  · rename_i out' hfit
    cases hout
    rcases fit_encodes hfit with ⟨n, hcut⟩ | hbig
    · exact ⟨_, rfl, hcut, .inl ⟨rfl, List.take_prefix n ans.vars⟩⟩
    · exact ⟨_, rfl, hbig, .inr ⟨rfl, rfl⟩⟩
  · cases hout

theorem blind_send (ans : Answer) : Blind (·.send g m h u req ans) a := by
  intro t
  simp only [send, withTree_v3Packet, withTree_maxSize]
  split <;> rfl

/-- **Below the user's level nothing is read**, and what is answered is an error. -/
theorem respond_below (hlevel : h.level < u.level) :
    Blind (·.respond g m h u req) a ∧
      ∀ out, (a.respond g m h u req).2 = some out → IsRefusal g req out := by
  refine ⟨(blind_send _).of_eq fun t => if_pos hlevel, ?_⟩
  intro out hout
  have hsend : a.respond g m h u req
      = a.send g m h u req { vars := req.vars, status := .authorizationError } := if_pos hlevel
  rw [hsend] at hout
  obtain ⟨pkt, htype, hmarshal, ⟨hstatus, hvars⟩ | ⟨hstatus, hvars⟩⟩ := send_cases hout
  · have herror : SNMPError.authorizationError ≠ .noError := by decide
    exact ⟨pkt, htype, hstatus.trans_ne herror, hvars, hmarshal⟩
  · have herror : SNMPError.tooBig ≠ .noError := by decide
    exact ⟨pkt, htype, hstatus.trans_ne herror, hvars ▸ List.nil_prefix, hmarshal⟩

theorem arrive_tree (a : V3Agent) (req : V3Packet) : (a.arrive req).tree = a.tree := by
  unfold arrive
  split
  · rfl
  · split
    · rfl
    · split <;> rfl

theorem leave_tree (a : V3Agent) (req : V3Packet) (ans : Answer) :
    (a.leave req ans).tree = a.tree := by
  have hadd : ∀ (a : V3Agent) (s : Stat) (n : UInt32), (a.add s n).tree = a.tree :=
    fun _ _ _ => rfl
  unfold leave
  dsimp only
  rw [hadd]
  split
  · rw [hadd]
    split
    · rfl
    · split <;> rfl
  · split
    · rfl
    · split <;> rfl

theorem dispatch_tree (a : V3Agent) (m : Moment) (ver : Version) (req : V3Packet) :
    (a.dispatch g m ver req false).1.tree = a.tree := by
  unfold dispatch
  dsimp only
  split
  · rfl
  · split
    · rfl
    · split
      · rfl
      · rw [if_neg Bool.false_ne_true]
        dsimp only
        split <;> rfl

/-- **A user that may not write changes nothing.** -/
theorem respond_tree (hwrite : u.write = false) : (a.respond g m h u req).1.tree = a.tree := by
  unfold respond
  split
  · exact (blind_send _).tree_eq
  · dsimp only
    rw [(blind_send _).tree_eq, hwrite]
    unfold process
    dsimp only
    rw [leave_tree]
    split
    · exact arrive_tree a req
    · rw [dispatch_tree, arrive_tree]

/--
**What an SNMPv3 message has to pass.**

A message is answered from the tree, or changes it, only where it is genuine and at its user's
level, and it changes it only where the user may write. Every other message leaves the tree, and
is answered the same whatever is in it: by a Report at most, or, where it is genuine but below
its user's level, by an error with the variables it came with.
-/
theorem answerV3_gated (hdigest : ∀ level params msg req, authenticates level →
      g.unmarshalTrap level params msg = .packet req → verifies params msg)
    (a : V3Agent) (m : Moment) (msg : Octets) :
    (∃ h u req, Genuine g verifies a m msg h u req ∧ h.level = u.level ∧
        (u.write = false → (a.answerV3 g m msg).1.tree = a.tree)) ∨
      Blind (·.answerV3 g m msg) a ∧
        ((∀ out, (a.answerV3 g m msg).2 = some out → IsReport g out) ∨
          ∃ h u req, Genuine g verifies a m msg h u req ∧ h.level < u.level ∧
            ∀ out, (a.answerV3 g m msg).2 = some out → IsRefusal g req out) := by
  rcases answerV3_cases hdigest a m msg with hclosed | ⟨h, u, req, hgenuine, hlevel, hrespond⟩
  · exact .inr ⟨hclosed.blind, .inl hclosed.report⟩
  · have hself : a.answerV3 g m msg = a.respond g m h u req := hrespond a.tree
    by_cases hbelow : h.level < u.level
    · obtain ⟨hblind, hrefusal⟩ := @respond_below _ g a m h u req hbelow
      refine .inr ⟨hblind.of_eq hrespond, .inr ⟨h, u, req, hgenuine, hbelow, ?_⟩⟩
      rw [hself]
      exact hrefusal
    · refine .inl ⟨h, u, req, hgenuine, UInt8.le_antisymm hlevel (UInt8.not_lt.mp hbelow), ?_⟩
      intro hwrite
      rw [hself]
      exact respond_tree hwrite

/-! ## A GET that neither authenticates nor encrypts -/

/-- The octets of a number. -/
def natOctets (n : Nat) : Octets :=
  if n < 128 then [n.toUInt8]
  else if n < 32768 then [(n / 256).toUInt8, n.toUInt8]
  else [(n / 65536).toUInt8, (n / 256).toUInt8, n.toUInt8]

/-- A variable whose name has single octets for arcs, and whose value is an exception, a counter or
null. -/
def plainBinding (v : Varbind) : Octets :=
  let value :=
    match v.type, v.value with
    | .counter32, .uint32 n => shortTlv 0x41 (natOctets n)
    | .other tag, _ => shortTlv tag.toUInt8 []
    | _, _ => []
  match arcs v.name with
  | a :: b :: rest =>
      shortTlv 0x30 (shortTlv 0x06 ((40 * a + b).toUInt8 :: rest.map Nat.toUInt8) ++ value)
  | _ => []

/-- The octets of a message, in the short form of a length. -/
def plainMessage (pkt : V3Packet) : Octets :=
  let params := pkt.securityParameters
  let error : UInt8 := if pkt.error = .noError then 0 else 16
  shortTlv 0x30 (shortTlv 0x02 [3]
    ++ (shortTlv 0x30 (shortTlv 0x02 (natOctets pkt.msgID.toNat)
      ++ (shortTlv 0x02 (natOctets pkt.msgMaxSize.toNat)
      ++ (shortTlv 0x04 [pkt.msgFlags] ++ shortTlv 0x02 [3])))
    ++ (shortTlv 0x04 (shortTlv 0x30 (shortTlv 0x04 params.engineID
      ++ (shortTlv 0x02 (natOctets params.boots.toNat)
      ++ (shortTlv 0x02 (natOctets params.engineTime.toNat) ++ (shortTlv 0x04 params.userName
      ++ (shortTlv 0x04 [] ++ shortTlv 0x04 []))))))
    ++ shortTlv 0x30 (shortTlv 0x04 pkt.contextEngineID ++ (shortTlv 0x04 pkt.contextName
      ++ shortTlv pkt.pduType (shortTlv 0x02 (natOctets pkt.requestID.toNat)
        ++ (shortTlv 0x02 [error] ++ (shortTlv 0x02 (natOctets pkt.errorIndex)
        ++ shortTlv 0x30 (pkt.vars.flatMap plainBinding)))))))))

/-- A GET of `sysName.0` from the user `a`, one that does not ask for a Report. -/
def plainGet : V3Packet where
  msgFlags := 0
  securityParameters :=
    { userName := octets "a", engineID := octets "engine", boots := 7, engineTime := 44 }
  msgID := 1
  msgMaxSize := 1500
  contextEngineID := octets "engine"
  pduType := getRequest
  requestID := 9
  vars := [{ name := Strings.dotted [1, 3, 6, 1, 2, 1, 1, 5, 0], type := .other 5, value := .other }]

/-- gosnmp, of that message and of the short ones without authentication. -/
def plainGosnmp : Gosnmp Unit where
  toBigInt := Agent.plainInt
  unmarshalTrap level _ msg :=
    if level = noAuthNoPriv ∧ msg = plainMessage plainGet then .packet plainGet else .error
  snmpDecodePacket _ _ _ := .error
  marshalMsg pkt :=
    if (plainMessage pkt).length < 128 ∧ pkt.msgFlags = noAuthNoPriv then .ok (plainMessage pkt)
    else .error ()

/-- An agent with one user, who is held to a level. -/
def plainAgent (level : UInt8) : V3Agent where
  tree := { entries := [], objects := [], notifyOnly := [] }
  rowStatus := none
  engineID := octets "engine"
  boots := 7
  maxSize := 1472
  users name := if name = octets "a" then some { name, level } else none
  stats _ := 0
  authFailures := 0

/-- 44 seconds after its start. -/
def plainMoment : Moment where
  clock := { started := 0, now := 44000000000, warp := none }
  faults := none
  roll := Fin.mk 0 (Nat.succ_pos 99)
  salt _ := []

theorem plainGosnmp_digest {verifies : UsmSecurityParameters → Octets → Prop} (level : UInt8)
    (params : UsmSecurityParameters) (msg : Octets) (req : V3Packet)
    (hsigned : authenticates level) (hopen : plainGosnmp.unmarshalTrap level params msg = .packet req) :
    verifies params msg := by
  have hrefused : plainGosnmp.unmarshalTrap level params msg = .error :=
    if_neg fun hplain => ne_noAuthNoPriv hsigned hplain.1
  rw [hrefused] at hopen
  cases hopen

theorem answerV3_gated_plain :
    ((plainAgent 0).answerV3 plainGosnmp plainMoment (plainMessage plainGet)).2.isSome ∧
    ((∃ h u req, Genuine plainGosnmp (fun _ _ => False) (plainAgent 0) plainMoment
          (plainMessage plainGet) h u req ∧ h.level = u.level ∧
        (u.write = false →
          ((plainAgent 0).answerV3 plainGosnmp plainMoment (plainMessage plainGet)).1.tree
            = (plainAgent 0).tree)) ∨
      Blind (·.answerV3 plainGosnmp plainMoment (plainMessage plainGet)) (plainAgent 0) ∧
        ((∀ out, ((plainAgent 0).answerV3 plainGosnmp plainMoment (plainMessage plainGet)).2
            = some out → IsReport plainGosnmp out) ∨
          ∃ h u req, Genuine plainGosnmp (fun _ _ => False) (plainAgent 0) plainMoment
              (plainMessage plainGet) h u req ∧ h.level < u.level ∧
            ∀ out, ((plainAgent 0).answerV3 plainGosnmp plainMoment (plainMessage plainGet)).2
              = some out → IsRefusal plainGosnmp req out)) :=
  ⟨by decide, answerV3_gated plainGosnmp_digest (plainAgent 0) plainMoment (plainMessage plainGet)⟩

/-- What is behind an element with a short length. -/
def skip (s : Octets) : Octets := s.drop (2 + (s.getD 1 0).toNat)

theorem skip_shortTlv {tag : UInt8} {contents : Octets} (hlen : contents.length < 256) (u : Octets) :
    skip (shortTlv tag contents ++ u) = u := by
  have htoNat : (UInt8.ofNat contents.length).toNat = contents.length :=
    UInt8.toNat_ofNat_of_lt' hlen
  unfold skip shortTlv
  rw [List.cons_append, List.cons_append, List.getD_cons_succ, List.getD_cons_zero, htoNat,
    Nat.add_comm, List.drop_succ_cons, List.drop_succ_cons, List.drop_left]

/-- The type of the PDU in a message, behind the version, the global data, the parameters, the
context's engine and its name. -/
def pduTag (msg : Octets) : Option UInt8 :=
  (skip (skip ((skip (skip (skip (msg.drop 2)))).drop 2))).head?

theorem pduTag_parts {version global params engineID name body : Octets} {tag : UInt8}
    (hshort : (shortTlv 0x30 (shortTlv 0x02 version ++ (shortTlv 0x30 global ++ (shortTlv 0x04 params
      ++ shortTlv 0x30 (shortTlv 0x04 engineID ++ (shortTlv 0x04 name ++ shortTlv tag body)))))).length
      < 256) :
    pduTag (shortTlv 0x30 (shortTlv 0x02 version ++ (shortTlv 0x30 global ++ (shortTlv 0x04 params
      ++ shortTlv 0x30 (shortTlv 0x04 engineID ++ (shortTlv 0x04 name ++ shortTlv tag body))))))
      = some tag := by
  have hlength : ∀ (tag : UInt8) (contents : Octets),
      (shortTlv tag contents).length = contents.length + 2 := fun _ _ => rfl
  simp only [hlength, List.length_append] at hshort
  unfold pduTag
  rw [show ∀ (tag : UInt8) (contents : Octets), (shortTlv tag contents).drop 2 = contents from
      fun _ _ => rfl, skip_shortTlv (by omega), skip_shortTlv (by omega), skip_shortTlv (by omega),
    show ∀ (tag : UInt8) (contents : Octets), (shortTlv tag contents).drop 2 = contents from
      fun _ _ => rfl, skip_shortTlv (by omega), skip_shortTlv (by omega)]
  rfl

theorem pduTag_plainMessage {pkt : V3Packet} (hshort : (plainMessage pkt).length < 128) :
    pduTag (plainMessage pkt) = some pkt.pduType :=
  pduTag_parts (lt_trans hshort (by decide))

/-- **A message below its user's level gets a Response.** -/
theorem answers_below_level :
    ¬ ∀ (g : Gosnmp Unit) (verifies : UsmSecurityParameters → Octets → Prop),
      (∀ level params msg req, authenticates level →
        g.unmarshalTrap level params msg = .packet req → verifies params msg) →
      ∀ (a : V3Agent) (m : Moment) (msg : Octets),
        (∃ h u req, Genuine g verifies a m msg h u req ∧ h.level = u.level ∧
          (u.write = false → (a.answerV3 g m msg).1.tree = a.tree)) ∨
        Blind (·.answerV3 g m msg) a ∧
          ∀ out, (a.answerV3 g m msg).2 = some out → IsReport g out := by
  intro hall
  have hlevels : (peekV3 (plainMessage plainGet)).map
      (fun read => read.toOption.map V3Header.level) = some (some 0) := by decide
  have htag : ((plainAgent authNoPriv).answerV3 plainGosnmp plainMoment (plainMessage plainGet)).2.map
      pduTag = some (some getResponse) := by decide
  rcases hall plainGosnmp (fun _ _ => False) plainGosnmp_digest (plainAgent authNoPriv) plainMoment
    (plainMessage plainGet) with ⟨h, u, req, hgenuine, hlevel, _⟩ | ⟨_, hreport⟩
  · rw [hgenuine.peeked] at hlevels
    have hplain : h.level = 0 := by simpa [Except.toOption] using hlevels
    have huser := hgenuine.user
    unfold plainAgent at huser
    dsimp only at huser
    split at huser
    · cases huser
      rw [hplain] at hlevel
      have hne : (0 : UInt8) ≠ authNoPriv := by decide
      exact hne hlevel
    · cases huser
  · cases hout : ((plainAgent authNoPriv).answerV3 plainGosnmp plainMoment
        (plainMessage plainGet)).2 with
    | none =>
        rw [hout] at htag
        cases htag
    | some out =>
        rw [hout] at htag
        obtain ⟨pkt, htype, hmarshal⟩ := hreport out hout
        unfold plainGosnmp at hmarshal
        dsimp only at hmarshal
        split at hmarshal
        · rename_i hshort
          cases hmarshal
          have hresponse : pduTag (plainMessage pkt) = some getResponse := by simpa using htag
          rw [pduTag_plainMessage hshort.1, htype] at hresponse
          cases hresponse
        · cases hmarshal

end V3Agent

end SnmpLens.Simulator
