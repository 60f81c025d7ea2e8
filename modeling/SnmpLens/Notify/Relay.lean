import SnmpLens.Notify.Email
import SnmpLens.Notify.Words

/-!
# Relays, and conversations up to the first recipient

A relay is `Fair` if what it writes outside a well-formed reply has none of the
words, its codes are codes of SMTP, and it does not refuse some recipients for good
and others for now. With a fair relay, an error before the first recipient is quiet,
and a code in it is one that the relay has answered: the log of the conversation has
it (`Backed`). One invariant does, `Before`.
-/

namespace SnmpLens.Notify

open Utf8 Textproto Attempt

/-! ## Fair relays -/

def PlainFault (f : Fault) : Prop := ∀ text, f = .other text → wordy text = false

/-- What a failure to read this answer quotes has none of the words, and a code is a code of
SMTP. -/
def Plain (a : Answer Fault) : Prop :=
  match a.read with
  | .fault f => PlainFault f
  | .malformed text => wordy text = false
  | .reply code _ => code < 600

/-- An answer that is a reply of this class. -/
def Yz (a : Answer Fault) (first : Nat) : Prop := ∃ code, a.code = some code ∧ code / 100 = first

/-- What `Rcpt` returns for a recipient. -/
def rcptResult (a : Answer Fault) (addr : String) : Except GoErr Unit := do
  validateLine addr
  let _ ← respond 25 a

namespace Relay

/-- The answers that can end a conversation, those to recipients apart. A refused `EHLO` is
followed by `HELO`. -/
def answers (r : Relay) : List (Answer Fault) :=
  [r.greeting, r.helo, r.starttls, r.ehloTLS, r.mail, r.data, r.closing] ++ r.auth

/-- `a` is what the relay answers to one of the recipients it is offered. -/
def Answers (r : Relay) (cfg : EmailConfig) (a : Answer Fault) : Prop :=
  ∃ i addr, cfg.recipients[i]? = some addr ∧ validateLine (trim addr) = .ok () ∧ r.rcpt i = a

/-- Some recipient is accepted. -/
def Accepts (r : Relay) (cfg : EmailConfig) : Prop :=
  ∃ a code, r.Answers cfg a ∧ a.code = some code ∧ code / 10 = 25

/-- Nothing outside a well-formed reply has the words, the codes are codes of SMTP, and no
recipient is refused for now where the attempt is refused for good. -/
structure Fair (r : Relay) (std : Stdlib) (cfg : EmailConfig) : Prop where
  connect : ∀ text, r.connect = some (.other text) →
    wordy ("connect to " ++ cfg.addr) = false ∧ wordy text = false
  plain : ∀ a ∈ r.answers, Plain a
  faults : ∀ f ∈ r.authEnd :: r.write.toList, PlainFault f
  challenges : norm cfg.authMethod = "login" → ∀ a ∈ r.auth, ∀ message challenge,
    a.read = .reply 334 message → Base64.decode message = .ok challenge →
      wordy (quote std.isPrint challenge) = false
  -- with everybody refused, the first refusal is the one reported
  first : ¬ r.Accepts cfg → ∀ addr, cfg.recipients.head? = some addr → Plain (r.rcpt 0) ∧
    ∀ err, rcptResult (r.rcpt 0) (trim addr) = .error err → err.kind = .untyped →
      wordy ("RCPT TO " ++ trim addr) = false
  unmixed : (∃ a, r.Answers cfg a ∧ Yz a 4) →
    (r.Accepts cfg → ¬ Yz r.data 5 ∧ ¬ Yz r.closing 5) ∧
    (¬ r.Accepts cfg → ∀ addr, cfg.recipients.head? = some addr →
      validateLine (trim addr) = .ok () → ¬ Yz (r.rcpt 0) 5)

end Relay

/-! ## Answers -/

theorem quiet_fault {f : Fault} (h : PlainFault f) : Quiet f.err := by
  cases f with
  | net text => exact quiet_net text
  | other text => exact quiet_plain (h text rfl)

/-- An error that carries no code. -/
def Codeless (err : GoErr) : Prop := ∀ code, err.kind ≠ .smtp code ∧ err.kind ≠ .http code

theorem codeless_plain (text : String) : Codeless (.plain text) := fun _ => by simp

theorem codeless_fault (f : Fault) : Codeless f.err := by
  cases f <;> simp [Fault.err, Codeless]

variable {a : Answer Fault} {err : GoErr}

/-- **What a read that fails returns.** -/
theorem quiet_respond {expect : Nat} (h : Plain a) (herr : respond expect a = .error err) :
    Quiet err := by
  unfold Plain at h
  unfold respond at herr
  split at herr
  · rename_i f hread
    rw [hread] at h
    obtain rfl := Except.error.inj herr
    exact quiet_fault h
  · rename_i text hread
    rw [hread] at h
    obtain rfl := Except.error.inj herr
    exact quiet_plain h
  · split at herr
    · cases herr
    · obtain rfl := Except.error.inj herr
      exact quiet_smtp _ _

theorem code_respond {expect code : Nat} (herr : respond expect a = .error err)
    (hk : err.kind = .smtp code) :
    a.code = some code ∧ expected expect code = false := by
  unfold respond at herr
  unfold Answer.code
  split at herr
  · obtain rfl := Except.error.inj herr
    exact absurd hk (codeless_fault _ _).1
  · obtain rfl := Except.error.inj herr
    cases hk
  · rename_i code' message hread
    split at herr
    · cases herr
    · rename_i hne
      obtain rfl := Except.error.inj herr
      obtain rfl : code' = code := by simpa using hk
      rw [hread]
      exact ⟨rfl, by simpa using hne⟩

theorem kind_respond {expect : Nat} (herr : respond expect a = .error err) (code : Nat) :
    err.kind ≠ .http code := by
  unfold respond at herr
  split at herr
  · obtain rfl := Except.error.inj herr
    exact (codeless_fault _ code).2
  · obtain rfl := Except.error.inj herr
    simp
  · split at herr
    · cases herr
    · obtain rfl := Except.error.inj herr
      simp

theorem read_of_respond {expect code : Nat} {message : Octets}
    (hok : respond expect a = .ok (code, message)) :
    a.read = .reply code message ∧ expected expect code = true := by
  unfold respond at hok
  split at hok
  · cases hok
  · cases hok
  · rename_i code' message' hread
    split at hok
    · rename_i hexp
      obtain ⟨rfl, rfl⟩ := Prod.mk.inj (Except.ok.inj hok)
      exact ⟨hread, hexp⟩
    · cases hok

theorem code_of_read {code : Nat} {message : Octets} (h : a.read = .reply code message) :
    a.code = some code := by
  unfold Answer.code
  rw [h]

theorem lt_of_plain {code : Nat} (h : Plain a) (hc : a.code = some code) :
    code < 600 := by
  unfold Plain at h
  unfold Answer.code at hc
  split at hc
  · rename_i code' message hread
    rw [hread] at h
    obtain rfl := Option.some.inj hc
    exact h
  · cases hc

/-! ## Up to the first recipient -/

/-- A quiet error, and the code in it is one that was answered. -/
structure Backed (r : Relay) (err : GoErr) (log : List Exchange) : Prop where
  quiet : Quiet err
  http : ∀ code, err.kind ≠ .http code
  code : ∀ code, err.kind = .smtp code →
    code < 600 ∧ (∃ x ∈ log, x.code = some code) ∧ ∃ a ∈ r.answers, a.code = some code

theorem Backed.mono {r : Relay} {log log' : List Exchange} (h : Backed r err log)
    (hsub : log ⊆ log') : Backed r err log' := by
  refine ⟨h.quiet, h.http, fun code hk => ?_⟩
  obtain ⟨hlt, ⟨x, hx, hxc⟩, ha⟩ := h.code code hk
  exact ⟨hlt, ⟨x, hsub hx, hxc⟩, ha⟩

theorem Backed.wrap {r : Relay} {log : List Exchange} {front p : String} (h : Backed r err log)
    (hf : front = p ++ ": ") (hp : wordy p = false) :
    Backed r (.wrap front err) log := ⟨h.quiet.wrap hf hp, h.http, h.code⟩

theorem backed_of_quiet {r : Relay} {log : List Exchange} (h : Quiet err) (hk : Codeless err) :
    Backed r err log :=
  ⟨h, fun code => (hk code).2, fun code heq => absurd heq (hk code).1⟩

theorem backed_plain {r : Relay} {text : String} {log : List Exchange} (h : wordy text = false) :
    Backed r (.plain text) log := backed_of_quiet (quiet_plain h) (codeless_plain text)

/-- No recipient has been offered, and the greeting failed as it was answered. -/
structure Before (r : Relay) (c : Client) : Prop where
  unasked : ∀ x ∈ c.log, x.asked ≠ .rcpt
  recalled : ∀ err, c.helloError = some err → Backed r err c.log

/-- The conversation ends before the first recipient. -/
def Stopped (r : Relay) (err : GoErr) (c : Client) : Prop := Before r c ∧ Backed r err c.log

theorem before_start (r : Relay) (tls : Bool) : Before r { tls } := ⟨by simp, by simp⟩

section

variable {r : Relay} {asked : Asked} {expect : Nat} {a : Answer Fault}

theorem meets_cmd {I : Client → Prop}
    (hI : ∀ c, I c → I { c with log := c.log ++ [⟨asked, a.code⟩] }) : Meets I (cmd asked expect a)
      (fun v c => I c ∧ ⟨asked, a.code⟩ ∈ c.log ∧ respond expect a = .ok v)
      (fun err c => I c ∧ ⟨asked, a.code⟩ ∈ c.log ∧ respond expect a = .error err) := by
  refine Meets.bind (Q := fun _ c => I c ∧ ⟨asked, a.code⟩ ∈ c.log) ?_ fun _ => ?_
  · exact Meets.modify fun c hc => ⟨hI c hc, by simp⟩
  · refine Meets.ofExcept (fun v c hv hc => ⟨hc.1, hc.2, hv⟩) fun err c he hc => ⟨hc.1, hc.2, he⟩

theorem Before.log {c : Client} {code : Option Nat} (h : Before r c) (hasked : asked ≠ .rcpt) :
    Before r { c with log := c.log ++ [⟨asked, code⟩] } := by
  refine ⟨?_, ?_⟩
  · intro x hx
    rcases List.mem_append.mp hx with hx | hx
    · exact h.unasked x hx
    · rw [List.mem_singleton.mp hx]
      exact hasked
  · exact fun err herr => (h.recalled err herr).mono (List.subset_append_left _ _)

theorem backed_of_respond {log : List Exchange} (ha : a ∈ r.answers) (hp : Plain a)
    (hx : ⟨asked, a.code⟩ ∈ log) (herr : respond expect a = .error err) : Backed r err log := by
  refine ⟨quiet_respond hp herr, kind_respond herr, fun code hk => ?_⟩
  have hcode := (code_respond herr hk).1
  exact ⟨lt_of_plain hp hcode, ⟨_, hx, hcode⟩, a, ha, hcode⟩

theorem meets_cmd_plain (hasked : asked ≠ .rcpt) (ha : a ∈ r.answers) (hp : Plain a) :
    Meets (Before r) (cmd asked expect a) (fun _ => Before r) (Stopped r) :=
  (meets_cmd fun _ hc => hc.log hasked).mono (fun _ _ h => h.1)
    fun _ _ h => ⟨h.1, backed_of_respond ha hp h.2.1 h.2.2⟩

end

section

variable {r : Relay} {std : Stdlib} {cfg : EmailConfig}

theorem meets_ehlo {E : GoErr → Client → Prop}
    (h : Meets (Before r) (cmd .ehlo 250 a) (fun _ => Before r) E) :
    Meets (Before r) (ehlo a) (fun _ => Before r) E := by
  refine h.bind fun v => ?_
  exact Meets.modify fun c hc => ⟨hc.unasked, hc.recalled⟩

theorem meets_helo (hf : r.Fair std cfg) :
    Meets (Before r) (helo r.helo) (fun _ => Before r) (Stopped r) := by
  refine Meets.bind (Q := fun _ => Before r) (Meets.modify fun c hc => ?_) fun _ => ?_
  · exact ⟨hc.unasked, hc.recalled⟩
  · have ha : r.helo ∈ r.answers := by simp [Relay.answers]
    exact (meets_cmd_plain (by decide) ha (hf.plain _ ha)).bind fun _ =>
      Meets.pure fun _ hc => hc

/-- Whatever `EHLO` is answered, what is remembered of the greeting is a refused `HELO`. -/
theorem meets_greet (hf : r.Fair std cfg) :
    Meets (Before r) (greet r) (fun _ => Before r) (Stopped r) := by
  have hehlo : Meets (Before r) (ehlo r.ehlo) (fun _ => Before r) (fun _ => Before r) :=
    meets_ehlo ((meets_cmd fun _ hc => hc.log (by decide)).mono (fun _ _ h => h.1) fun _ _ h => h.1)
  refine Meets.bind (Q := fun _ => Before r) (Meets.modify fun c hc => ?_) fun _ => ?_
  · exact ⟨hc.unasked, hc.recalled⟩
  refine hehlo.result.bind fun res => ?_
  cases res with
  | ok v => exact Meets.pure fun c hc => hc.1 _ rfl
  | error err =>
      intro c hc
      refine ((meets_helo hf).result.bind fun res => ?_) c (hc.2 _ rfl)
      cases res with
      | ok v =>
          refine Meets.modify fun c hc => ?_
          have hb := hc.1 _ rfl
          exact ⟨hb.unasked, by simp⟩
      | error err =>
          refine Meets.modify fun c hc => ?_
          obtain ⟨hb, herr⟩ := hc.2 _ rfl
          refine ⟨hb.unasked, fun err' heq => ?_⟩
          obtain rfl := Option.some.inj heq
          exact herr

theorem meets_hello (hf : r.Fair std cfg) :
    Meets (Before r) (hello r) (fun _ => Before r) (Stopped r) := by
  refine Meets.bind (Q := fun _ => Before r) ?_ fun _ => ?_
  · refine Meets.bind (Q := fun _ => Before r) (Meets.get fun c hc => hc) fun c => ?_
    split
    · exact Meets.pure fun _ hc => hc
    · exact meets_greet hf
  · refine Meets.bind (Q := fun c' c => c' = c ∧ Before r c) (Meets.get fun c hc => ⟨rfl, hc⟩)
      fun c => ?_
    split
    · rename_i err herr
      refine Meets.fail fun c' hc => ?_
      obtain ⟨rfl, hb⟩ := hc
      exact ⟨hb, hb.recalled _ herr⟩
    · exact Meets.pure fun _ hc => hc.2

theorem meets_extension (hf : r.Fair std cfg) (ext : String) :
    Meets (Before r) (extension r ext) (fun _ => Before r) (Stopped r) := by
  refine (meets_hello hf).result.bind fun res => ?_
  cases res with
  | error err => exact Meets.pure fun c hc => (hc.2 _ rfl).1
  | ok v =>
      refine Meets.bind (Q := fun _ => Before r) (Meets.get fun c hc => hc.1 _ rfl) fun c => ?_
      exact Meets.pure fun _ hc => hc

theorem meets_wrapped {α : Type} {m : Conversation α} {Q : α → Client → Prop} {front p : String}
    (h : Meets (Before r) m Q (Stopped r)) (hf : front = p ++ ": ") (hp : wordy p = false) :
    Meets (Before r) (wrapped front m) Q (Stopped r) :=
  h.mapError fun _ _ he => ⟨he.1, he.2.wrap hf hp⟩

theorem meets_startTLS (hf : r.Fair std cfg) :
    Meets (Before r) (startTLS r) (fun _ => Before r) (Stopped r) := by
  have h1 : r.starttls ∈ r.answers := by simp [Relay.answers]
  have h2 : r.ehloTLS ∈ r.answers := by simp [Relay.answers]
  refine (meets_hello hf).bind fun _ => ?_
  refine (meets_cmd_plain (by decide) h1 (hf.plain _ h1)).bind fun _ => ?_
  refine Meets.bind (Q := fun _ => Before r) (Meets.modify fun c hc => ?_) fun _ => ?_
  · exact ⟨hc.unasked, hc.recalled⟩
  · exact meets_ehlo (meets_cmd_plain (by decide) h2 (hf.plain _ h2))

theorem meets_stopAt {front p : String} {f : Option Fault} (hf : front = p ++ ": ")
    (h : ∀ text, f = some (.other text) → wordy p = false ∧ wordy text = false) :
    Meets (Before r) (EmailConfig.stopAt front f) (fun _ => Before r) (Stopped r) := by
  cases f with
  | none => exact Meets.pure fun _ hc => hc
  | some f =>
      refine Meets.fail fun c hc => ⟨hc, backed_of_quiet ?_ (codeless_fault f)⟩
      cases f with
      | net text => exact fun hk => absurd hk (by simp [Fault.err])
      | other text =>
          obtain ⟨hp, ht⟩ := h text rfl
          exact (quiet_plain ht).wrap hf hp

theorem meets_connect (hf : r.Fair std cfg) :
    Meets (Before r) (cfg.connect r) (fun _ => Before r) (Stopped r) := by
  have ha : r.greeting ∈ r.answers := by simp [Relay.answers]
  refine (meets_stopAt rfl hf.connect).bind fun _ => ?_
  refine Meets.bind (Q := fun _ => Before r) ?_ fun _ => Meets.pure fun _ hc => hc
  exact meets_wrapped (p := "smtp handshake") (meets_cmd_plain (by decide) ha (hf.plain _ ha))
    rfl (by decide)

theorem meets_secure (hf : r.Fair std cfg) :
    Meets (Before r) (cfg.secure r) (fun _ => Before r) (Stopped r) := by
  unfold EmailConfig.secure
  dsimp only
  split
  · refine (meets_extension hf _).bind fun offered => ?_
    split
    · refine Meets.bind (Q := fun _ => Before r) ?_ fun _ => Meets.pure fun _ hc => hc
      exact meets_wrapped (p := "starttls") (meets_startTLS hf) rfl (by decide)
    · split
      · exact Meets.fail fun c hc => ⟨hc, backed_plain (by decide)⟩
      · exact Meets.pure fun _ hc => hc
  · exact Meets.pure fun _ hc => hc

/-- What an authentication answers is quiet, and has no code but the one it was given. -/
structure Auth.Plain (auth : Auth) (r : Relay) : Prop where
  start : ∀ server tls err, auth.start server tls = .error err →
    Quiet err ∧ Codeless err
  next : ∀ a ∈ r.auth, ∀ message challenge err, a.read = .reply 334 message →
    Base64.decode message = .ok challenge → auth.next challenge true = .error err →
      Quiet err ∧ Codeless err
  last : ∀ message, auth.next message false = .ok none

theorem plain_plainAuth (host : String) (r : Relay) : (plainAuth host).Plain r := by
  refine ⟨?_, ?_, fun _ => rfl⟩
  · intro server tls err h
    unfold plainAuth at h
    dsimp only at h
    split at h
    · obtain rfl := Except.error.inj h
      exact ⟨quiet_plain (by decide), codeless_plain _⟩
    · split at h
      · obtain rfl := Except.error.inj h
        exact ⟨quiet_plain (by decide), codeless_plain _⟩
      · cases h
  · intro a _ message challenge err _ _ h
    obtain rfl := Except.error.inj h
    exact ⟨quiet_plain (by decide), codeless_plain _⟩

theorem plain_loginAuth (hf : r.Fair std cfg) (hlogin : norm cfg.authMethod = "login")
    (username password host : String) (tlsOK : Bool) :
    (loginAuth std username password host tlsOK).Plain r := by
  refine ⟨?_, ?_, fun _ => rfl⟩
  · intro server tls err h
    unfold loginAuth at h
    dsimp only at h
    split at h
    · obtain rfl := Except.error.inj h
      exact ⟨quiet_plain (by decide), codeless_plain _⟩
    · split at h
      · obtain rfl := Except.error.inj h
        exact ⟨quiet_plain (by decide), codeless_plain _⟩
      · cases h
  · intro a ha message challenge err hread hdec h
    unfold loginAuth at h
    dsimp only at h
    split at h
    · cases h
    · split at h
      · cases h
      · split at h
        · cases h
        · obtain rfl := Except.error.inj h
          have hchallenge := hf.challenges hlogin a ha message challenge hread hdec
          refine ⟨quiet_plain ?_, codeless_plain _⟩
          rw [wordy_quote, hchallenge, Bool.or_false]
          decide

theorem quiet_reply {auth : Auth} (hp : auth.Plain r) (ha : a ∈ r.auth) {code : Nat}
    {message : Octets} (hread : a.read = .reply code message)
    (h : auth.reply code message = .error err) :
    Quiet err ∧ ∀ code', (err.kind = .smtp code' → code' = code) ∧ err.kind ≠ .http code' := by
  unfold Auth.reply at h
  split at h
  · rename_i hcode
    subst hcode
    split at h
    · obtain rfl := Except.error.inj h
      refine ⟨quiet_plain ?_, fun code' => ⟨by simp [corruptInput], by simp [corruptInput]⟩⟩
      rw [wordy_number]
      decide
    · rename_i challenge hdec
      obtain ⟨hq, hk⟩ := hp.next a ha message challenge err hread hdec h
      exact ⟨hq, fun code' => ⟨fun heq => absurd heq (hk code').1, (hk code').2⟩⟩
  · split at h
    · rw [hp.last] at h
      cases h
    · obtain rfl := Except.error.inj h
      exact ⟨quiet_smtp _ _, fun code' => ⟨fun heq => by simpa using heq.symm, by simp⟩⟩

theorem meets_authLoop {auth : Auth} (hf : r.Fair std cfg) (hp : auth.Plain r) :
    ∀ l : List (Answer Fault), (∀ a ∈ l, a ∈ r.auth) →
      Meets (Before r) (authLoop auth r.authEnd l) (fun _ => Before r) (Stopped r) := by
  intro l
  induction l with
  | nil =>
      intro _
      refine Meets.fail fun c hc => ⟨hc, backed_of_quiet (quiet_fault ?_) (codeless_fault _)⟩
      exact hf.faults _ List.mem_cons_self
  | cons a rest ih =>
      intro hl
      have hauth := hl a List.mem_cons_self
      have ha : a ∈ r.answers := List.mem_append_right _ hauth
      have hplain := hf.plain a ha
      have hcmd : Meets (Before r) (cmd .auth 0 a)
          (fun v c => Before r c ∧ ⟨.auth, a.code⟩ ∈ c.log ∧ respond 0 a = .ok v) (Stopped r) :=
        (meets_cmd fun _ hc => hc.log (by decide)).mono (fun _ _ h => h)
          fun _ _ h => ⟨h.1, backed_of_respond ha hplain h.2.1 h.2.2⟩
      refine hcmd.bind fun v => ?_
      obtain ⟨code, message⟩ := v
      refine Meets.bind (Q := fun _ => Before r) ?_ fun next => ?_
      · refine Meets.ofExcept (fun _ _ _ hc => hc.1) fun err c herr hc => ⟨hc.1, ?_⟩
        obtain ⟨hread, _⟩ := read_of_respond hc.2.2
        obtain ⟨hq, hk⟩ := quiet_reply hp hauth hread herr
        have hcode := code_of_read hread
        refine ⟨hq, fun code' => (hk code').2, fun code' heq => ?_⟩
        rw [(hk code').1 heq]
        exact ⟨lt_of_plain hplain hcode, ⟨_, hc.2.1, hcode⟩, a, ha, hcode⟩
      · cases next with
        | none => exact Meets.pure fun _ hc => hc
        | some _ => exact ih fun x hx => hl x (List.mem_cons_of_mem _ hx)

theorem meets_auth {auth : Auth} (hf : r.Fair std cfg) (hp : auth.Plain r) (host : String) :
    Meets (Before r) (auth.run host r) (fun _ => Before r) (Stopped r) := by
  refine (meets_hello hf).bind fun _ => ?_
  refine Meets.bind (Q := fun _ => Before r) (Meets.get fun c hc => hc) fun c => ?_
  refine Meets.bind (Q := fun _ => Before r) ?_ fun _ => ?_
  · refine Meets.ofExcept (fun _ _ _ hc => hc) fun err c herr hc => ⟨hc, ?_⟩
    obtain ⟨hq, hk⟩ := hp.start _ _ err herr
    exact backed_of_quiet hq hk
  · exact meets_authLoop hf hp r.auth fun _ h => h

theorem meets_authenticate (hf : r.Fair std cfg) (hk : cfg.knownAuth = true) (usingTLS : Bool) :
    Meets (Before r) (cfg.authenticate std r usingTLS) (fun _ => Before r) (Stopped r) := by
  unfold EmailConfig.authenticate
  dsimp only
  split
  · split
    · exact meets_wrapped (p := "smtp auth") (meets_auth hf (plain_plainAuth _ _) _) rfl (by decide)
    · exact Meets.pure fun _ hc => hc
  · rename_i hplain
    split
    · rename_i hlogin
      exact meets_wrapped (p := "smtp auth (login)")
        (meets_auth hf (plain_loginAuth hf hlogin _ _ _ _) _) rfl (by decide)
    · rename_i hlogin
      split
      · exact Meets.pure fun _ hc => hc
      · rename_i hnone
        refine absurd hk ?_
        have hempty : norm cfg.authMethod ≠ "" := fun h => hplain (.inl h)
        have hp : norm cfg.authMethod ≠ "plain" := fun h => hplain (.inr h)
        simp [EmailConfig.knownAuth, hempty, hp, hlogin, hnone]

theorem validateLine_error {line : String} (h : validateLine line = .error err) :
    err = .plain "smtp: A line must not contain CR or LF" := by
  unfold validateLine at h
  split at h
  · exact (Except.error.inj h).symm
  · cases h

theorem quiet_validateLine {line : String} (h : validateLine line = .error err) :
    Quiet err ∧ Codeless err := by
  obtain rfl := validateLine_error h
  exact ⟨quiet_plain (by decide), codeless_plain _⟩

theorem meets_mail (hf : r.Fair std cfg) (sender : String) :
    Meets (Before r) (mail r sender) (fun _ => Before r) (Stopped r) := by
  have ha : r.mail ∈ r.answers := by simp [Relay.answers]
  refine Meets.bind (Q := fun _ => Before r) ?_ fun _ => ?_
  · refine Meets.ofExcept (fun _ _ _ hc => hc) fun err c herr hc => ⟨hc, ?_⟩
    obtain ⟨hq, hk⟩ := quiet_validateLine herr
    exact backed_of_quiet hq hk
  · refine (meets_hello hf).bind fun _ => ?_
    exact (meets_cmd_plain (by decide) ha (hf.plain _ ha)).bind fun _ => Meets.pure fun _ hc => hc

/-- **Before the first recipient the conversation ends for a reason the relay gave.** -/
theorem meets_opening (hf : r.Fair std cfg) (hk : cfg.knownAuth = true) :
    Meets (Before r) (cfg.opening std r) (fun _ => Before r) (Stopped r) := by
  refine (meets_connect hf).bind fun _ => ?_
  refine (meets_secure hf).bind fun usingTLS => ?_
  refine (meets_authenticate hf hk usingTLS).bind fun _ => ?_
  exact meets_wrapped (p := "MAIL FROM") (meets_mail hf _) rfl (by decide)

end

end SnmpLens.Notify
