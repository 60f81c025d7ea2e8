import SnmpLens.Notify.Deliver
import SnmpLens.Notify.Rephrased

/-!
# What one attempt can be given up for

For each kind of sink, an attempt that is given up at once is one whose
configuration cannot produce a request, or one that its receiver refuses for good;
and what the other side says, as opposed to what it answers, makes no difference.
Both hold of a `Fair` other side: outside the replies that carry a code, nothing that
would be quoted has one of the words.
-/

namespace SnmpLens.Notify

open Events Attempt

/-- Errors that are worth the same, if both sides are fair. -/
def SameVerdict (F F' : Prop) (err err' : GoErr) : Prop := F → F' → permanent err = permanent err'

/-! ## Webhooks -/

/-- The receiver refuses for good: a redirect, or a 4xx that does not ask for another try. -/
def Response.Rejects : Response → Prop
  | .failed _ => False
  | .answered code _ _ _ =>
      (300 ≤ code ∧ code < 400) ∨ (400 ≤ code ∧ code < 500 ∧ code ∉ [408, 425, 429])

/-- Two responses of one code. -/
def Response.Rephrased : Response → Response → Prop
  | .failed _, .failed _ => True
  | .answered code _ _ _, .answered code' _ _ _ => code = code'
  | _, _ => False

namespace WebhookConfig

/-- A redirect is still reported as one once the credential is out of the report. -/
def Fair (std : Stdlib) (w : WebhookConfig) : Response → Prop
  | .failed _ => True
  | .answered code status location _ => 300 ≤ code → code < 400 →
      wordy (w.scrub (w.scrub (redirectErr std status location))).text = true

/-- The configuration cannot produce a request for this delivery. -/
def CannotSend (std : Stdlib) (w : WebhookConfig) (q : Queued) : Prop :=
  ∃ err, w.request std q.event q.subject q.body = .error err

variable {std : Stdlib} {w : WebhookConfig} {q : Queued} {response response' : Response}
  {err : GoErr}

theorem send_of_request {v : Unit} (h : w.request std q.event q.subject q.body = .ok v) :
    w.send std q.event q.subject q.body response = (w.answer std response).mapError w.scrub := by
  unfold send
  rw [h]
  rfl

theorem send_of_cannot (h : w.request std q.event q.subject q.body = .error err) :
    w.send std q.event q.subject q.body response = .error (w.scrub err) := by
  unfold send
  rw [h]
  rfl

/-- **A webhook is given up on for its configuration or for the code it was answered.** -/
theorem given_up (h : w.send std q.event q.subject q.body response = .error err)
    (hp : permanent err = true) : w.CannotSend std q ∨ response.Rejects := by
  cases hreq : w.request std q.event q.subject q.body with
  | error e => exact .inl ⟨e, hreq⟩
  | ok v =>
      refine .inr ?_
      rw [send_of_request hreq] at h
      cases response with
      | failed text =>
          obtain rfl := Except.error.inj h
          rw [permanent_eq] at hp
          simp [scrub] at hp
      | answered code status location body =>
          unfold answer at h
          dsimp only at h
          by_cases h3 : 300 ≤ code ∧ code < 400
          · exact .inl h3
          · rw [if_neg h3] at h
            split at h
            · obtain rfl := Except.error.inj h
              have hquiet : ∀ msg, Quiet (GoErr.http code msg) := fun msg hk => absurd hk (by simp)
              rcases (((hquiet _).scrubSecret w.token).scrubSecret w.token).permanent hp with
                ⟨c, hk, _⟩ | ⟨c, hk, hge, hlt, hnot⟩
              · exact absurd hk (by simp)
              · obtain rfl : code = c := by simpa using hk
                exact .inr ⟨hge, hlt, hnot⟩
            · exact absurd h (by simp [Except.mapError])

theorem rephrased {F F' : Prop} (hs : response.Rephrased response') (hf : F → w.Fair std response)
    (hf' : F' → w.Fair std response') : Alike (fun _ _ => True) (SameVerdict F F')
      (w.send std q.event q.subject q.body response)
      (w.send std q.event q.subject q.body response') := by
  cases hreq : w.request std q.event q.subject q.body with
  | error e =>
      rw [send_of_cannot hreq, send_of_cannot hreq]
      exact .error fun _ _ => rfl
  | ok v =>
      rw [send_of_request hreq, send_of_request hreq]
      cases response with
      | failed text =>
          cases response' with
          | failed text' =>
              refine .error fun _ _ => ?_
              rw [permanent_eq, permanent_eq]
              simp [scrub]
          | answered => exact hs.elim
      | answered code status location body =>
          cases response' with
          | failed => exact hs.elim
          | answered code' status' location' body' =>
              obtain rfl : code = code' := hs
              unfold answer
              dsimp only
              by_cases h3 : 300 ≤ code ∧ code < 400
              · rw [if_pos h3, if_pos h3]
                refine .error fun hF hF' => ?_
                have hw := hf hF h3.1 h3.2
                have hw' := hf' hF' h3.1 h3.2
                rw [permanent_eq, permanent_eq]
                simp only [scrub, redirectErr, kind_scrubSecret, kind_plain] at hw hw' ⊢
                rw [hw, hw']
              · rw [if_neg h3, if_neg h3]
                split
                · refine .error fun _ _ => ?_
                  rw [permanent_eq, permanent_eq]
                  simp [scrub]
                · exact .ok trivial

end WebhookConfig

/-! ## Syslog -/

/-- A collector that fails the same way. -/
structure Collector.Rephrased (c c' : Collector) : Prop where
  dial : sameFault c.dial c'.dial
  write : sameFault c.write c'.write

namespace SyslogConfig

structure Fair (cfg : SyslogConfig) (c : Collector) : Prop where
  dial : ∀ text, c.dial = some (.other text) →
    wordy ("dial " ++ normaliseProtocol cfg.protocol ++ " " ++ cfg.target) = false ∧
      wordy text = false
  write : ∀ text, c.write = some (.other text) → wordy text = false

/-- The configuration has no TLS settings to dial with. -/
def CannotSend (std : Stdlib) (cfg : SyslogConfig) : Prop :=
  normaliseProtocol cfg.protocol = "tls" ∧ ∃ err, cfg.tlsConfigFor std = .error err

variable {std : Stdlib} {cfg : SyslogConfig} {c c' : Collector} {err : GoErr}

/-- The error of `dial`, unless it is one of the configuration. -/
def dialErr (cfg : SyslogConfig) (f : Fault) : GoErr :=
  .wrap ("dial " ++ normaliseProtocol cfg.protocol ++ " " ++ cfg.target ++ ": ") f.err

theorem dial_eq (hcan : ¬ cfg.CannotSend std) (fault : Option Fault) :
    cfg.dial std (normaliseProtocol cfg.protocol) cfg.target fault =
      match fault with
      | some f => .error (cfg.dialErr f)
      | none => .ok () := by
  unfold dial dialErr
  dsimp only
  by_cases htls : normaliseProtocol cfg.protocol = "tls"
  · rw [if_neg (not_not.mpr htls), htls]
    cases ht : cfg.tlsConfigFor std with
    | error e => exact absurd ⟨htls, e, ht⟩ hcan
    | ok v => cases fault <;> rfl
  · cases fault <;> exact if_pos htls

theorem quiet_dialErr {f : Fault} (hf : cfg.Fair c) (h : c.dial = some f) :
    Quiet (cfg.dialErr f) := by
  cases f with
  | net text => exact fun hk => absurd hk (by simp [dialErr, Fault.err])
  | other text =>
      obtain ⟨hp, ht⟩ := hf.dial text h
      exact (quiet_plain ht).wrap rfl hp

/-- What a collector can make of an attempt whose settings are in order. -/
theorem send_eq (hcan : ¬ cfg.CannotSend std) : cfg.send std c =
    match c.dial, c.write with
    | some f, _ => .error (cfg.dialErr f)
    | none, some f => .error f.err
    | none, none => .ok () := by
  unfold send
  rw [dial_eq hcan]
  cases c.dial with
  | some f => rfl
  | none => cases c.write <;> rfl

/-- **Syslog is given up on for its configuration alone.** -/
theorem given_up (hf : cfg.Fair c) (h : cfg.send std c = .error err) (hp : permanent err = true) :
    cfg.CannotSend std := by
  by_contra hcan
  rw [send_eq hcan] at h
  have hquiet : Quiet err ∧ Codeless err := by
    cases hd : c.dial with
    | some f =>
        rw [hd] at h
        obtain rfl := Except.error.inj h
        exact ⟨quiet_dialErr hf hd, codeless_fault f⟩
    | none =>
        cases hw : c.write with
        | some f =>
            rw [hd, hw] at h
            obtain rfl := Except.error.inj h
            refine ⟨quiet_fault fun text heq => ?_, codeless_fault f⟩
            exact hf.write text (by rw [hw, heq])
        | none =>
            rw [hd, hw] at h
            cases h
  rcases hquiet.1.permanent hp with ⟨code, hk, _⟩ | ⟨code, hk, _⟩
  · exact (hquiet.2 code).1 hk
  · exact (hquiet.2 code).2 hk

theorem rephrased {F F' : Prop} (hs : c.Rephrased c') (hf : F → cfg.Fair c)
    (hf' : F' → cfg.Fair c') :
    Alike (fun _ _ => True) (SameVerdict F F') (cfg.send std c) (cfg.send std c') := by
  by_cases hcan : cfg.CannotSend std
  · -- the collector is not reached
    obtain ⟨htls, e, he⟩ := hcan
    have hsend : ∀ c, cfg.send std c = .error (.wrap "syslog TLS configuration: " e) := by
      intro c
      unfold send dial
      dsimp only
      rw [if_neg (not_not.mpr htls), he]
      rfl
    rw [hsend, hsend]
    exact .error fun _ _ => rfl
  · rw [send_eq hcan, send_eq hcan]
    have hdial := hs.dial
    cases hd : c.dial with
    | some f =>
        cases hd' : c'.dial with
        | none =>
            rw [hd, hd'] at hdial
            cases hdial
        | some f' =>
            rw [hd, hd'] at hdial
            cases hdial with
            | some hk =>
                refine .error fun hF hF' => ?_
                have hsame : SameErr F F' (cfg.dialErr f) (cfg.dialErr f') :=
                  .inr ⟨hk, fun hF => quiet_dialErr (hf hF) hd, fun hF => quiet_dialErr (hf' hF) hd'⟩
                exact hsame.permanent hF hF'
    | none =>
        cases hd' : c'.dial with
        | some f' =>
            rw [hd, hd'] at hdial
            cases hdial
        | none =>
            have hwrite := hs.write
            cases hw : c.write with
            | none =>
                cases hw' : c'.write with
                | none => exact .ok trivial
                | some f' =>
                    rw [hw, hw'] at hwrite
                    cases hwrite
            | some f =>
                cases hw' : c'.write with
                | none =>
                    rw [hw, hw'] at hwrite
                    cases hwrite
                | some f' =>
                    rw [hw, hw'] at hwrite
                    cases hwrite with
                    | some hk =>
                        refine .error fun hF hF' => ?_
                        have hsame : SameErr F F' f.err f'.err := sameErr_fault hk
                          (fun hF text heq => (hf hF).write text (by rw [hw, heq]))
                          fun hF text heq => (hf' hF).write text (by rw [hw', heq])
                        exact hsame.permanent hF hF'

end SyslogConfig

/-! ## Any sink -/

structure Wire.Rephrased (wire wire' : Wire) : Prop where
  collector : wire.collector.Rephrased wire'.collector
  response : wire.response.Rephrased wire'.response
  relay : wire.relay.Rephrased wire'.relay
  panic : wire.panic.isSome = wire'.panic.isSome

namespace Sink

def CannotSend (std : Stdlib) (q : Queued) : Sink → Prop
  | .syslog cfg => cfg.CannotSend std
  | .webhook cfg => cfg.CannotSend std q
  | .email cfg => cfg.CannotSend std

/-- The receiver refused the attempt for good. -/
def RefusedBy (std : Stdlib) (wire : Wire) (sink : Sink) : Prop :=
  wire.panic = none ∧
    match sink with
    | .syslog _ => False
    | .webhook _ => wire.response.Rejects
    | .email cfg => cfg.RefusedBy std wire.relay

/-- What the receiver answers can be a reason to give up. -/
def Decisive (wire : Wire) (sink : Sink) : Prop :=
  wire.panic = none ∧
    match sink with
    | .syslog _ => False
    | .webhook _ => wire.response.Rejects
    | .email cfg => wire.relay.Decisive cfg

/-- The other side says nothing that would be taken for a reason to give up. -/
structure Fair (std : Stdlib) (wire : Wire) (sink : Sink) : Prop where
  panic : ∀ text, wire.panic = some text → wordy text = false
  sent : wire.panic = none →
    match sink with
    | .syslog cfg => cfg.Fair wire.collector
    | .webhook cfg => cfg.Fair std wire.response
    | .email cfg => wire.relay.Fair std cfg

variable {std : Stdlib} {q : Queued} {wire wire' : Wire} {sink : Sink} {err : GoErr}

theorem quiet_panic {text : String} (h : wordy text = false) :
    Quiet (.plain ("the destination panicked: " ++ text)) := by
  refine quiet_plain ?_
  have hfront : "the destination panicked: " = "the destination panicked" ++ ": " := rfl
  rw [wordy_front hfront, h, Bool.or_false]
  decide

/-- **A delivery is given up at once only for cause.** -/
theorem given_up (hf : sink.Fair std wire) (h : deliver std q wire (some sink) = .failed err)
    (hp : permanent err = true) :
    sink.CannotSend std q ∨ (sink.RefusedBy std wire ∧ sink.Decisive wire) := by
  unfold deliver at h
  dsimp only at h
  cases hpanic : wire.panic with
  | some text =>
      rw [hpanic] at h
      obtain rfl := Outcome.failed.inj h
      rcases (quiet_panic (hf.panic text hpanic)).permanent hp with ⟨code, hk, _⟩ | ⟨code, hk, _⟩
      · cases hk
      · cases hk
  | none =>
      rw [hpanic] at h
      have hsend : sink.send std q wire = .error err := by
        cases hs : sink.send std q wire with
        | ok v =>
            rw [hs] at h
            cases h
        | error e =>
            rw [hs] at h
            exact congrArg Except.error (Outcome.failed.inj h)
      have hfair := hf.sent hpanic
      cases sink with
      | syslog cfg => exact .inl (SyslogConfig.given_up hfair hsend hp)
      | webhook cfg =>
          exact (WebhookConfig.given_up hsend hp).imp id fun hr => ⟨⟨hpanic, hr⟩, hpanic, hr⟩
      | email cfg =>
          exact (email_given_up hfair hsend hp).imp id fun hr => ⟨⟨hpanic, hr.1⟩, hpanic, hr.2⟩

theorem send_rephrased {F F' : Prop} (hs : wire.Rephrased wire') (hnone : wire.panic = none)
    (hf : F → sink.Fair std wire) (hf' : F' → sink.Fair std wire') :
    Alike (fun _ _ => True) (SameVerdict F F') (sink.send std q wire) (sink.send std q wire') := by
  have hnone' : wire'.panic = none := by
    have hpanic := hs.panic
    rw [hnone] at hpanic
    exact Option.isSome_eq_false_iff.mp hpanic.symm |> Option.isNone_iff_eq_none.mp
  cases sink with
  | syslog cfg =>
      exact SyslogConfig.rephrased hs.collector (fun hF => (hf hF).sent hnone)
        fun hF => (hf' hF).sent hnone'
  | webhook cfg =>
      exact WebhookConfig.rephrased hs.response (fun hF => (hf hF).sent hnone)
        fun hF => (hf' hF).sent hnone'
  | email cfg =>
      exact (email_rephrased hs.relay (fun hF => (hf hF).sent hnone)
        fun hF => (hf' hF).sent hnone').mono (fun _ _ h => h) fun _ _ h => h.permanent

end Sink

/-- **What the other side says makes no difference**: the attempt succeeds with both or with
neither, and where it fails it is given up with both or with neither. -/
theorem deliver_rephrased {std : Stdlib} {q : Queued} {wire wire' : Wire} {sink : Sink}
    (hs : wire.Rephrased wire')
    (hf : q.attempts + 1 < maxAttempts → sink.Fair std wire)
    (hf' : q.attempts + 1 < maxAttempts → sink.Fair std wire') :
    (deliver std q wire (some sink) = .sent ↔ deliver std q wire' (some sink) = .sent) ∧
    (deliver std q wire (some sink)).dead q.attempts
      = (deliver std q wire' (some sink)).dead q.attempts := by
  have hdead : ∀ err err' : GoErr, SameVerdict (q.attempts + 1 < maxAttempts)
      (q.attempts + 1 < maxAttempts) err err' →
      Outcome.dead q.attempts (.failed err) = Outcome.dead q.attempts (.failed err') := by
    intro err err' hv
    unfold Outcome.dead
    dsimp only
    by_cases hlt : q.attempts + 1 < maxAttempts
    · rw [hv hlt hlt]
    · rw [decide_eq_true (by omega : maxAttempts ≤ q.attempts + 1), Bool.or_true, Bool.or_true]
  unfold deliver
  dsimp only
  cases hpanic : wire.panic with
  | some text =>
      cases hpanic' : wire'.panic with
      | none =>
          have hp := hs.panic
          rw [hpanic, hpanic'] at hp
          cases hp
      | some text' =>
          refine ⟨by simp, hdead _ _ fun hF hF' => ?_⟩
          have hw := Sink.quiet_panic ((hf hF).panic text hpanic) rfl
          have hw' := Sink.quiet_panic ((hf' hF').panic text' hpanic') rfl
          rw [permanent_eq, permanent_eq, kind_plain, kind_plain]
          simp only [hw, hw']
  | none =>
      cases hpanic' : wire'.panic with
      | some text' =>
          have hp := hs.panic
          rw [hpanic, hpanic'] at hp
          cases hp
      | none =>
          have hsend := Sink.send_rephrased (q := q) hs hpanic hf hf'
          dsimp only
          revert hsend
          generalize sink.send std q wire = x
          generalize sink.send std q wire' = x'
          intro hsend
          cases hsend with
          | ok _ => exact ⟨Iff.rfl, rfl⟩
          | error hv => exact ⟨by simp, hdead _ _ hv⟩

end SnmpLens.Notify
