import Mathlib.Data.Option.Basic
import SnmpLens.Notify.Refusal

/-!
# Other words

Two relays that answer every command with the same code, announce the same
extensions and pose the same challenges differ in words. The email sink then has the
same success with both, or fails with errors of one kind; and where both are fair,
neither error is judged by what was said.
-/

namespace SnmpLens.Notify

open Utf8 Textproto Attempt

/-! ## Relays that differ in words -/

/-- Two answers that come to the same, up to what is said: `P` is what messages of a code have
to have in common. -/
def Echo (P : Nat → Octets → Octets → Prop) (a a' : Answer Fault) : Prop :=
  match a.read, a'.read with
  | .fault f, .fault f' => f.err.kind = f'.err.kind
  | .malformed _, .malformed _ => True
  | .reply code message, .reply code' message' => code = code' ∧ P code message message'
  | _, _ => False

/-- Nothing but the code. -/
def sameCode (_ : Nat) (_ _ : Octets) : Prop := True

def sameExtensions (code : Nat) (message message' : Octets) : Prop :=
  code = 250 → extensions message = extensions message'

def sameChallenge (code : Nat) (message message' : Octets) : Prop :=
  code = 334 → message = message'

/-- Faults of one kind, or none. -/
def sameFault : Option Fault → Option Fault → Prop :=
  Option.Rel fun f f' => f.err.kind = f'.err.kind

structure Relay.Rephrased (r r' : Relay) : Prop where
  connect : sameFault r.connect r'.connect
  greeting : Echo sameCode r.greeting r'.greeting
  ehlo : Echo sameExtensions r.ehlo r'.ehlo
  helo : Echo sameCode r.helo r'.helo
  starttls : Echo sameCode r.starttls r'.starttls
  ehloTLS : Echo sameExtensions r.ehloTLS r'.ehloTLS
  auth : List.Forall₂ (Echo sameChallenge) r.auth r'.auth
  authEnd : r.authEnd.err.kind = r'.authEnd.err.kind
  mail : Echo sameCode r.mail r'.mail
  rcpt : ∀ i, Echo sameCode (r.rcpt i) (r'.rcpt i)
  data : Echo sameCode r.data r'.data
  write : sameFault r.write r'.write
  closing : Echo sameCode r.closing r'.closing

/-! ## Errors that differ in words -/

/-- The same error, or two of one kind. `F` and `F'` are what makes each of them quiet. -/
def SameErr (F F' : Prop) (err err' : GoErr) : Prop :=
  err = err' ∨ (err.kind = err'.kind ∧ (F → Quiet err) ∧ (F' → Quiet err'))

variable {front p : String}

section

variable {F F' : Prop} {err err' : GoErr}

theorem SameErr.wrap_of (h : SameErr F F' err err') (hf : front = p ++ ": ")
    (hp : F → err.kind = .untyped → wordy p = false)
    (hp' : F' → err'.kind = .untyped → wordy p = false) :
    SameErr F F' (.wrap front err) (.wrap front err') := by
  rcases h with rfl | ⟨hk, hq, hq'⟩
  · exact .inl rfl
  · exact .inr ⟨hk, fun hF => (hq hF).wrap_of hf (hp hF), fun hF => (hq' hF).wrap_of hf (hp' hF)⟩

theorem SameErr.wrap (h : SameErr F F' err err') (hf : front = p ++ ": ") (hp : wordy p = false) :
    SameErr F F' (.wrap front err) (.wrap front err') :=
  h.wrap_of hf (fun _ _ => hp) fun _ _ => hp

theorem SameErr.scrubSecret (h : SameErr F F' err err') (secret : String) :
    SameErr F F' (scrubSecret secret err) (scrubSecret secret err') := by
  rcases h with rfl | ⟨hk, hq, hq'⟩
  · exact .inl rfl
  · refine .inr ⟨by simpa using hk, fun hF => (hq hF).scrubSecret secret,
      fun hF => (hq' hF).scrubSecret secret⟩

/-- **Errors that differ in words are worth the same**, if it is right to call them quiet. -/
theorem SameErr.permanent (h : SameErr F F' err err') (hF : F) (hF' : F') :
    permanent err = permanent err' := by
  rcases h with rfl | ⟨hk, hq, hq'⟩
  · rfl
  · rw [permanent_eq, permanent_eq, ← hk]
    cases hkind : err.kind with
    | untyped =>
        have hw := hq hF hkind
        have hw' := hq' hF' (hk ▸ hkind)
        simp only [hw, hw']
    | _ => rfl

end

/-! ## The conversation -/

variable {P : Nat → Octets → Octets → Prop} {a a' : Answer Fault}

theorem echo_respond (h : Echo P a a') (expect : Nat) :
    Alike (fun v v' => v.1 = v'.1 ∧ P v.1 v.2 v'.2 ∧ expected expect v.1 = true)
      (fun err err' => respond expect a = .error err ∧ respond expect a' = .error err' ∧
        err.kind = err'.kind)
      (respond expect a) (respond expect a') := by
  unfold Echo at h
  unfold respond
  cases hr : a.read with
  | fault f =>
      cases hr' : a'.read with
      | fault f' =>
          rw [hr, hr'] at h
          exact .error ⟨rfl, rfl, h⟩
      | malformed text => rw [hr, hr'] at h; exact h.elim
      | reply code message => rw [hr, hr'] at h; exact h.elim
  | malformed text =>
      cases hr' : a'.read with
      | fault f' => rw [hr, hr'] at h; exact h.elim
      | malformed text => exact .error ⟨rfl, rfl, rfl⟩
      | reply code message => rw [hr, hr'] at h; exact h.elim
  | reply code message =>
      cases hr' : a'.read with
      | fault f' => rw [hr, hr'] at h; exact h.elim
      | malformed text => rw [hr, hr'] at h; exact h.elim
      | reply code' message' =>
          rw [hr, hr'] at h
          obtain ⟨rfl, hP⟩ := h
          dsimp only
          by_cases hexp : expected expect code = true
          · rw [if_pos hexp, if_pos hexp]
            exact .ok ⟨rfl, hP, hexp⟩
          · rw [if_neg hexp, if_neg hexp]
            exact .error ⟨rfl, rfl, rfl⟩

theorem code_echo (h : Echo P a a') :
    a.code = a'.code := by
  unfold Echo at h
  unfold Answer.code
  cases hr : a.read with
  | reply code message =>
      cases hr' : a'.read with
      | reply code' message' =>
          rw [hr, hr'] at h
          exact congrArg some h.1
      | fault f => rw [hr, hr'] at h; exact h.elim
      | malformed text => rw [hr, hr'] at h; exact h.elim
  | fault f =>
      cases hr' : a'.read with
      | reply code message => rw [hr, hr'] at h; exact h.elim
      | _ => rfl
  | malformed text =>
      cases hr' : a'.read with
      | reply code message => rw [hr, hr'] at h; exact h.elim
      | _ => rfl

/-- Two clients that know the same. -/
structure SameClient (F F' : Prop) (c c' : Client) : Prop where
  tls : c.tls = c'.tls
  didHello : c.didHello = c'.didHello
  ext : c.ext = c'.ext
  helloError : Option.Rel (SameErr F F') c.helloError c'.helloError

section

variable {F F' : Prop} {r r' : Relay} {std : Stdlib} {cfg : EmailConfig}

theorem agree_cmd (h : Echo P a a') (asked : Asked) (expect : Nat) :
    Agree (SameClient F F')
      (fun v v' => v.1 = v'.1 ∧ P v.1 v.2 v'.2 ∧ expected expect v.1 = true)
      (fun err err' => respond expect a = .error err ∧ respond expect a' = .error err' ∧
        err.kind = err'.kind)
      (cmd asked expect a) (cmd asked expect a') := by
  refine Agree.bind (Agree.modify fun c c' hc => ?_) fun _ _ _ => Agree.ofExcept ?_
  · exact ⟨hc.tls, hc.didHello, hc.ext, hc.helloError⟩
  · exact echo_respond h expect

/-- Where fair relays fail to give the answer that is expected, what they say is quiet. -/
theorem agree_cmd_plain (h : Echo P a a') (hp : F → Plain a) (hp' : F' → Plain a') (asked : Asked)
    (expect : Nat) :
    Agree (SameClient F F')
      (fun v v' => v.1 = v'.1 ∧ P v.1 v.2 v'.2 ∧ expected expect v.1 = true)
      (SameErr F F') (cmd asked expect a) (cmd asked expect a') :=
  (agree_cmd h asked expect).mono (fun _ _ hv => hv) fun _ _ he =>
    .inr ⟨he.2.2, fun hF => quiet_respond (hp hF) he.1, fun hF => quiet_respond (hp' hF) he.2.1⟩

theorem agree_ehlo {E : GoErr → GoErr → Prop}
    (h : Agree (SameClient F F') (fun v v' => v.1 = v'.1 ∧ sameExtensions v.1 v.2 v'.2 ∧ expected 250 v.1 = true) E (cmd .ehlo 250 a) (cmd .ehlo 250 a'))
    :
    Agree (SameClient F F') (fun _ _ => True) E (ehlo a) (ehlo a') := by
  refine h.bind fun v v' hv => ?_
  obtain ⟨_, hext, hexp⟩ := hv
  refine Agree.modify fun c c' hc => ⟨hc.tls, hc.didHello, ?_, hc.helloError⟩
  exact hext (by simpa [expected] using hexp)

variable (hs : r.Rephrased r') (hf : F → r.Fair std cfg) (hf' : F' → r'.Fair std cfg)

include hs hf hf'

theorem agree_helo :
    Agree (SameClient F F') (fun _ _ => True) (SameErr F F') (helo r.helo) (helo r'.helo) := by
  refine Agree.bind (V := fun _ _ => True) (Agree.modify fun c c' hc => ?_) fun _ _ _ => ?_
  · exact ⟨hc.tls, hc.didHello, rfl, hc.helloError⟩
  · refine (agree_cmd_plain hs.helo (fun hF => (hf hF).plain _ (by simp [Relay.answers]))
      (fun hF => (hf' hF).plain _ (by simp [Relay.answers])) _ _).bind fun _ _ _ => ?_
    exact Agree.pure trivial

theorem agree_greet :
    Agree (SameClient F F') (fun _ _ => True) (SameErr F F') (greet r) (greet r') := by
  refine Agree.bind (V := fun _ _ => True) (Agree.modify fun c c' hc => ?_) fun _ _ _ => ?_
  · exact ⟨hc.tls, rfl, hc.ext, hc.helloError⟩
  refine (agree_ehlo (agree_cmd hs.ehlo .ehlo 250)).result.bind fun res res' hres => ?_
  cases hres with
  | ok _ => exact Agree.pure trivial
  | error _ =>
      refine (agree_helo hs hf hf').result.bind fun res res' hres => ?_
      cases hres with
      | ok _ =>
          refine Agree.modify fun c c' hc => ⟨hc.tls, hc.didHello, hc.ext, ?_⟩
          exact .none
      | error herr =>
          refine Agree.modify fun c c' hc => ⟨hc.tls, hc.didHello, hc.ext, ?_⟩
          exact .some herr

theorem agree_hello :
    Agree (SameClient F F') (fun _ _ => True) (SameErr F F') (hello r) (hello r') := by
  refine Agree.bind (V := fun _ _ => True) ?_ fun _ _ _ => ?_
  · refine Agree.get.bind fun c c' hc => ?_
    rw [hc.didHello]
    split
    · exact Agree.pure trivial
    · exact agree_greet hs hf hf'
  · refine Agree.get.bind fun c c' hc => ?_
    have herr := hc.helloError
    cases h : c.helloError with
    | none =>
        cases h' : c'.helloError with
        | none => exact Agree.pure trivial
        | some e' =>
            rw [h, h'] at herr
            cases herr
    | some e =>
        cases h' : c'.helloError with
        | none =>
            rw [h, h'] at herr
            cases herr
        | some e' =>
            rw [h, h'] at herr
            cases herr with
            | some herr => exact Agree.fail herr

theorem agree_extension (ext : String) :
    Agree (SameClient F F') (· = ·) (SameErr F F') (extension r ext) (extension r' ext) := by
  refine (agree_hello hs hf hf').result.bind fun res res' hres => ?_
  cases hres with
  | error _ => exact Agree.pure rfl
  | ok _ =>
      refine Agree.get.bind fun c c' hc => ?_
      rw [hc.ext]
      exact Agree.pure rfl

theorem agree_startTLS :
    Agree (SameClient F F') (fun _ _ => True) (SameErr F F') (startTLS r) (startTLS r') := by
  refine (agree_hello hs hf hf').bind fun _ _ _ => ?_
  refine (agree_cmd_plain hs.starttls (fun hF => (hf hF).plain _ (by simp [Relay.answers]))
    (fun hF => (hf' hF).plain _ (by simp [Relay.answers])) _ _).bind fun _ _ _ => ?_
  refine Agree.bind (V := fun _ _ => True) (Agree.modify fun c c' hc => ?_) fun _ _ _ => ?_
  · exact ⟨rfl, hc.didHello, hc.ext, hc.helloError⟩
  · exact agree_ehlo (agree_cmd_plain hs.ehloTLS
      (fun hF => (hf hF).plain _ (by simp [Relay.answers]))
      (fun hF => (hf' hF).plain _ (by simp [Relay.answers])) _ _)

omit hs hf hf' in
theorem sameErr_fault {f f' : Fault} (h : f.err.kind = f'.err.kind) (hp : F → PlainFault f)
    (hp' : F' → PlainFault f') : SameErr F F' f.err f'.err :=
  .inr ⟨h, fun hF => quiet_fault (hp hF), fun hF => quiet_fault (hp' hF)⟩

omit hs hf hf' in
theorem agree_wrapped {α : Type} {V : α → α → Prop} {m m' : Conversation α}
    (h : Agree (SameClient F F') V (SameErr F F') m m') (hfront : front = p ++ ": ")
    (hp : wordy p = false) :
    Agree (SameClient F F') V (SameErr F F') (wrapped front m) (wrapped front m') :=
  h.mapError fun _ _ he => he.wrap hfront hp

omit hs hf hf' in
theorem agree_stopAt {f f' : Option Fault} (h : sameFault f f') (hfront : front = p ++ ": ")
    (hp : F → ∀ text, f = some (.other text) → wordy p = false ∧ wordy text = false)
    (hp' : F' → ∀ text, f' = some (.other text) → wordy p = false ∧ wordy text = false) :
    Agree (SameClient F F') (fun _ _ => True) (SameErr F F')
      (EmailConfig.stopAt front f) (EmailConfig.stopAt front f') := by
  -- a front is only looked at where the fault is untyped, and then it is clean
  have hclean : ∀ (G : Prop) (x : Fault),
      (G → ∀ text, some x = some (.other text) → wordy p = false ∧ wordy text = false) →
      (G → PlainFault x) ∧ (G → x.err.kind = .untyped → wordy p = false) := by
    intro G x hx
    refine ⟨fun hG text heq => (hx hG text (congrArg some heq)).2, fun hG hk => ?_⟩
    cases x with
    | net text => exact absurd hk (by simp [Fault.err])
    | other text => exact (hx hG text rfl).1
  cases h with
  | none => exact Agree.pure trivial
  | @some x x' hk =>
      obtain ⟨h1, h2⟩ := hclean F x hp
      obtain ⟨h1', h2'⟩ := hclean F' x' hp'
      exact Agree.fail ((sameErr_fault hk h1 h1').wrap_of hfront h2 h2')

theorem agree_connect :
    Agree (SameClient F F') (fun _ _ => True) (SameErr F F') (cfg.connect r) (cfg.connect r') := by
  refine (agree_stopAt hs.connect rfl (fun hF => (hf hF).connect)
    fun hF => (hf' hF).connect).bind fun _ _ _ => ?_
  refine (agree_wrapped (p := "smtp handshake") (agree_cmd_plain hs.greeting
    (fun hF => (hf hF).plain _ (by simp [Relay.answers]))
    (fun hF => (hf' hF).plain _ (by simp [Relay.answers])) _ _) rfl (by decide)).bind fun _ _ _ => ?_
  exact Agree.pure trivial

theorem agree_secure :
    Agree (SameClient F F') (· = ·) (SameErr F F') (cfg.secure r) (cfg.secure r') := by
  unfold EmailConfig.secure
  dsimp only
  split
  · refine (agree_extension hs hf hf' _).bind fun offered offered' heq => ?_
    subst heq
    split
    · refine (agree_wrapped (p := "starttls") (agree_startTLS hs hf hf') rfl
        (by decide)).bind fun _ _ _ => ?_
      exact Agree.pure rfl
    · split
      · exact Agree.fail (.inl rfl)
      · exact Agree.pure rfl
  · exact Agree.pure rfl

omit hs hf hf' in
theorem alike_reply {auth : Auth} (hlast : ∀ message, auth.next message false = .ok none)
    {code : Nat} {message message' : Octets} (h : sameChallenge code message message') :
    Alike (· = ·) (SameErr F F') (auth.reply code message) (auth.reply code message') := by
  unfold Auth.reply
  by_cases h334 : code = 334
  · rw [if_pos h334, if_pos h334, h h334]
    cases hdec : Base64.decode message' with
    | error pos => exact .error (.inl rfl)
    | ok challenge =>
        dsimp only
        cases auth.next challenge true with
        | error err => exact .error (.inl rfl)
        | ok next => exact .ok rfl
  · rw [if_neg h334, if_neg h334]
    by_cases h235 : code = 235
    · rw [if_pos h235, if_pos h235, hlast, hlast]
      exact .ok rfl
    · rw [if_neg h235, if_neg h235]
      exact .error (.inr ⟨rfl, fun _ => quiet_smtp _ _, fun _ => quiet_smtp _ _⟩)

theorem agree_authLoop {auth : Auth} (hlast : ∀ message, auth.next message false = .ok none) :
    ∀ l l' : List (Answer Fault), List.Forall₂ (Echo sameChallenge) l l' →
      (∀ a ∈ l, a ∈ r.auth) → (∀ a ∈ l', a ∈ r'.auth) →
      Agree (SameClient F F') (fun _ _ => True) (SameErr F F')
        (authLoop auth r.authEnd l) (authLoop auth r'.authEnd l') := by
  intro l l' h
  induction h with
  | nil =>
      intro _ _
      refine Agree.fail (sameErr_fault hs.authEnd ?_ ?_)
      · exact fun hF => (hf hF).faults _ List.mem_cons_self
      · exact fun hF => (hf' hF).faults _ List.mem_cons_self
  | @cons a a' rest rest' hecho _ ih =>
      intro hl hl'
      have hplain : F → Plain a := fun hF =>
        (hf hF).plain a (List.mem_append_right _ (hl a List.mem_cons_self))
      have hplain' : F' → Plain a' := fun hF =>
        (hf' hF).plain a' (List.mem_append_right _ (hl' a' List.mem_cons_self))
      refine (agree_cmd_plain hecho hplain hplain' _ _).bind fun v v' hv => ?_
      obtain ⟨code, message⟩ := v
      obtain ⟨code', message'⟩ := v'
      obtain ⟨rfl, hmessage, _⟩ := hv
      refine (Agree.ofExcept (alike_reply hlast hmessage)).bind fun next next' heq => ?_
      subst heq
      cases next with
      | none => exact Agree.pure trivial
      | some _ =>
          exact ih (fun x hx => hl x (List.mem_cons_of_mem _ hx))
            fun x hx => hl' x (List.mem_cons_of_mem _ hx)

theorem agree_auth {auth : Auth} (hlast : ∀ message, auth.next message false = .ok none)
    (host : String) : Agree (SameClient F F') (fun _ _ => True) (SameErr F F')
      (auth.run host r) (auth.run host r') := by
  refine (agree_hello hs hf hf').bind fun _ _ _ => ?_
  refine Agree.get.bind fun c c' hc => ?_
  rw [hc.tls]
  refine Agree.bind (V := fun _ _ => True) (Agree.ofExcept ?_) fun _ _ _ => ?_
  · cases auth.start host c'.tls with
    | error err => exact .error (.inl rfl)
    | ok v => exact .ok trivial
  · exact agree_authLoop hs hf hf' hlast _ _ hs.auth (fun _ h => h) fun _ h => h

theorem agree_authenticate (usingTLS : Bool) :
    Agree (SameClient F F') (fun _ _ => True) (SameErr F F')
      (cfg.authenticate std r usingTLS) (cfg.authenticate std r' usingTLS) := by
  unfold EmailConfig.authenticate
  dsimp only
  split
  · split
    · exact agree_wrapped (p := "smtp auth") (agree_auth hs hf hf' (fun _ => rfl) _) rfl (by decide)
    · exact Agree.pure trivial
  · split
    · exact agree_wrapped (p := "smtp auth (login)") (agree_auth hs hf hf' (fun _ => rfl) _) rfl
        (by decide)
    · split
      · exact Agree.pure trivial
      · exact Agree.fail (.inl rfl)

omit hs hf hf' in
theorem agree_same {α : Type} {res : Except GoErr α} :
    Agree (SameClient F F') (fun _ _ => True) (SameErr F F')
      (Attempt.ofExcept res) (Attempt.ofExcept res) := by
  refine Agree.ofExcept ?_
  cases res with
  | error err => exact .error (.inl rfl)
  | ok v => exact .ok trivial

theorem agree_mail (sender : String) : Agree (SameClient F F') (fun _ _ => True) (SameErr F F')
    (mail r sender) (mail r' sender) := by
  refine agree_same.bind fun _ _ _ => ?_
  refine (agree_hello hs hf hf').bind fun _ _ _ => ?_
  refine (agree_cmd_plain hs.mail (fun hF => (hf hF).plain _ (by simp [Relay.answers]))
    (fun hF => (hf' hF).plain _ (by simp [Relay.answers])) _ _).bind fun _ _ _ => ?_
  exact Agree.pure trivial

theorem agree_opening : Agree (SameClient F F') (fun _ _ => True) (SameErr F F')
    (cfg.opening std r) (cfg.opening std r') := by
  refine (agree_connect hs hf hf').bind fun _ _ _ => ?_
  refine (agree_secure hs hf hf').bind fun usingTLS usingTLS' heq => ?_
  subst heq
  refine (agree_authenticate hs hf hf' usingTLS).bind fun _ _ _ => ?_
  exact agree_wrapped (p := "MAIL FROM") (agree_mail hs hf hf' _) rfl (by decide)

omit hf hf' in
theorem accepts_rephrased : r.Accepts cfg ↔ r'.Accepts cfg := by
  constructor
  · intro h
    obtain ⟨a, code, ⟨i, addr, hi, hv, rfl⟩, hcode, hten⟩ := h
    exact ⟨r'.rcpt i, code, ⟨i, addr, hi, hv, rfl⟩, code_echo (hs.rcpt i) ▸ hcode, hten⟩
  · intro h
    obtain ⟨a, code, ⟨i, addr, hi, hv, rfl⟩, hcode, hten⟩ := h
    exact ⟨r.rcpt i, code, ⟨i, addr, hi, hv, rfl⟩, (code_echo (hs.rcpt i)).symm ▸ hcode, hten⟩

omit hf hf' in
theorem alike_rcptResult {addr : String} (hp : F → Plain (r.rcpt 0)) (hp' : F' → Plain (r'.rcpt 0)) :
    Alike (fun _ _ => True) (SameErr F F') (rcptResult (r.rcpt 0) addr)
      (rcptResult (r'.rcpt 0) addr) := by
  unfold rcptResult
  cases validateLine addr with
  | error err => exact .error (.inl rfl)
  | ok v =>
      have hrespond := echo_respond (hs.rcpt 0) 25
      cases hr : respond 25 (r.rcpt 0) with
      | ok w =>
          rw [hr] at hrespond
          cases hr' : respond 25 (r'.rcpt 0) with
          | ok w' => exact .ok trivial
          | error err' =>
              rw [hr'] at hrespond
              cases hrespond
      | error err =>
          rw [hr] at hrespond
          cases hr' : respond 25 (r'.rcpt 0) with
          | ok w' =>
              rw [hr'] at hrespond
              cases hrespond
          | error err' =>
              rw [hr'] at hrespond
              cases hrespond with
              | error hk =>
                  exact .error (.inr ⟨hk.2.2, fun hF => quiet_respond (hp hF) hr,
                    fun hF => quiet_respond (hp' hF) hr'⟩)

omit hs hf hf' in
theorem same_offered {c c' : Client} (hc : SameClient F F' c c') :
    SameClient F F' (r.offered cfg c) (r'.offered cfg c') :=
  ⟨hc.tls, hc.didHello, hc.ext, hc.helloError⟩

theorem agree_address : Agree (SameClient F F') (fun _ _ => True) (SameErr F F')
    (cfg.address r) (cfg.address r') := by
  intro c c' hc
  by_cases hacc : r.Accepts cfg
  · rw [address_of_accepts hacc, address_of_accepts ((accepts_rephrased hs).mp hacc)]
    exact ⟨.ok trivial, same_offered hc⟩
  · have hacc' : ¬ r'.Accepts cfg := mt (accepts_rephrased hs).mpr hacc
    rw [address_of_refused hacc, address_of_refused hacc']
    refine ⟨.error ?_, same_offered hc⟩
    cases haddr : cfg.recipients.head? with
    | none =>
        rw [List.head?_eq_none_iff.mp haddr]
        exact .inl rfl
    | some addr =>
        obtain ⟨err, herr, hfirst⟩ := first_refusal hacc haddr
        obtain ⟨err', herr', hfirst'⟩ := first_refusal hacc' haddr
        rw [hfirst, hfirst', Option.getD_some, Option.getD_some]
        have hsame := @alike_rcptResult _ _ _ _ hs (trim addr)
          (fun hF => ((hf hF).first hacc addr haddr).1)
          (fun hF => ((hf' hF).first hacc' addr haddr).1)
        rw [herr, herr'] at hsame
        cases hsame with
        | error hsame =>
            exact hsame.wrap_of rfl (fun hF => ((hf hF).first hacc addr haddr).2 err herr)
              fun hF => ((hf' hF).first hacc' addr haddr).2 err' herr'

theorem agree_transmit : Agree (SameClient F F') (fun _ _ => True) (SameErr F F')
    (EmailConfig.transmit r) (EmailConfig.transmit r') := by
  have hwrite : ∀ (x : Relay), x.Fair std cfg → ∀ text, x.write = some (.other text) →
      wordy "write message" = false ∧ wordy text = false := by
    intro x hx text heq
    refine ⟨by decide, hx.faults (.other text) ?_ text rfl⟩
    rw [heq]
    exact List.mem_cons_of_mem _ (List.mem_singleton_self _)
  refine (agree_wrapped (p := "DATA") (agree_cmd_plain hs.data
    (fun hF => (hf hF).plain _ (by simp [Relay.answers]))
    (fun hF => (hf' hF).plain _ (by simp [Relay.answers])) _ _) rfl (by decide)).bind fun _ _ _ => ?_
  refine (agree_stopAt hs.write (p := "write message") rfl (fun hF => hwrite r (hf hF))
    fun hF => hwrite r' (hf' hF)).bind fun _ _ _ => ?_
  refine (agree_wrapped (p := "close message") (agree_cmd_plain hs.closing
    (fun hF => (hf hF).plain _ (by simp [Relay.answers]))
    (fun hF => (hf' hF).plain _ (by simp [Relay.answers])) _ _) rfl (by decide)).bind fun _ _ _ => ?_
  exact Agree.pure trivial

/-- **Relays that differ in words make no difference to the email sink**, or one of words. -/
theorem email_rephrased :
    Alike (fun _ _ => True) (SameErr F F') (cfg.send std r) (cfg.send std r') := by
  have hconverse : Agree (SameClient F F') (fun _ _ => True) (SameErr F F')
      (cfg.converse std r) (cfg.converse std r') := by
    refine (agree_opening hs hf hf').bind fun _ _ _ => ?_
    refine (agree_address hs hf hf').bind fun _ _ _ => ?_
    exact agree_transmit hs hf hf'
  have hclient := (hconverse { tls := norm cfg.encryption == "tls" }
    { tls := norm cfg.encryption == "tls" } ⟨rfl, rfl, rfl, .none⟩).1
  unfold EmailConfig.send
  cases hready : cfg.ready std with
  | error err => exact .error (.inl rfl)
  | ok v =>
      change Alike _ _ (Except.mapError _ (cfg.client std r).1)
        (Except.mapError _ (cfg.client std r').1)
      unfold EmailConfig.client
      revert hclient
      generalize (cfg.converse std r { tls := norm cfg.encryption == "tls" }).1 = x
      generalize (cfg.converse std r' { tls := norm cfg.encryption == "tls" }).1 = x'
      intro hclient
      cases hclient with
      | ok _ => exact .ok trivial
      | error herr => exact .error (herr.scrubSecret cfg.password)

end

end SnmpLens.Notify
