import SnmpLens.Notify.Email

/-!
# What a relay comes to be offered

The credential of an email sink goes out where a relay is sent an `AUTH` line, so the
log of a conversation that has an answer to one says that the relay had the password,
or had it by asking. `Told` is what is then known of the connection, for every relay;
and whatever it allows happens with one of the relays at the end.
-/

namespace SnmpLens.Notify

open Utf8 Attempt Textproto

/-! ## Every relay -/

section

variable {std : Stdlib} {cfg : EmailConfig} {r : Relay}

/-- Only these answers were read, and the encryption is as it was. -/
structure Untouched (allowed : Asked → Prop) (tls : Bool) (c : Client) : Prop where
  log : ∀ x ∈ c.log, allowed x.asked
  tls : c.tls = tls

variable {allowed : Asked → Prop} {tls : Bool}

/-- A computation that leaves it so, whatever comes of it. -/
def Leaves (allowed : Asked → Prop) (tls : Bool) {α : Type} (m : Conversation α) : Prop :=
  Meets (Untouched allowed tls) m (fun _ => Untouched allowed tls) fun _ => Untouched allowed tls

theorem Leaves.bind {α β : Type} {m : Conversation α} {f : α → Conversation β}
    (h : Leaves allowed tls m) (hf : ∀ a, Leaves allowed tls (f a)) :
    Leaves allowed tls (m >>= f) := Meets.bind h hf

variable {α : Type}

theorem Leaves.pure (a : α) : Leaves allowed tls (Pure.pure a : Conversation α) :=
  Meets.pure fun _ h => h

theorem Leaves.fail (err : GoErr) :
    Leaves allowed tls (Attempt.fail err : Conversation α) := Meets.fail fun _ h => h

theorem Leaves.ofExcept (x : Except GoErr α) :
    Leaves allowed tls (Attempt.ofExcept x : Conversation α) :=
  Meets.ofExcept (fun _ _ _ h => h) fun _ _ _ h => h

theorem Leaves.result {m : Conversation α} (h : Leaves allowed tls m) :
    Leaves allowed tls (Attempt.result m) := by
  refine (@Meets.result _ _ _ _ _ _ _ (fun _ => Untouched allowed tls) h).mono ?_ fun _ _ h => h
  intro x c hx
  cases x with
  | ok a => exact hx.1 a rfl
  | error err => exact hx.2 err rfl

theorem Leaves.wrapped {m : Conversation α} (front : String) (h : Leaves allowed tls m) :
    Leaves allowed tls (wrapped front m) := Meets.mapError h fun _ _ h => h

theorem Leaves.get : Leaves allowed tls (Attempt.get : Conversation Client) :=
  Meets.get fun _ h => h

theorem leaves_modify {f : Client → Client} (hlog : ∀ c, (f c).log = c.log)
    (htls : ∀ c, (f c).tls = c.tls) : Leaves allowed tls (Attempt.modify f : Conversation Unit) := by
  refine Meets.modify fun c h => ⟨?_, ?_⟩
  · rw [hlog]
    exact h.log
  · rw [htls]
    exact h.tls

theorem leaves_cmd {asked : Asked} (ha : allowed asked) (expect : Nat) (a : Answer Fault) :
    Leaves allowed tls (cmd asked expect a) := by
  refine Leaves.bind (Meets.modify fun c h => ⟨?_, h.tls⟩) fun _ => Leaves.ofExcept _
  intro x hx
  rcases List.mem_append.mp hx with hx | hx
  · exact h.log x hx
  · rw [List.mem_singleton.mp hx]
    exact ha

theorem leaves_ehlo (ha : allowed .ehlo) (a : Answer Fault) : Leaves allowed tls (ehlo a) :=
  (leaves_cmd ha _ _).bind fun _ => leaves_modify (fun _ => rfl) fun _ => rfl

theorem leaves_hello (hehlo : allowed .ehlo) (hhelo : allowed .helo) :
    Leaves allowed tls (hello r) := by
  have hhelo' : Leaves allowed tls (helo r.helo) := by
    refine Leaves.bind (leaves_modify (fun _ => rfl) fun _ => rfl) fun _ => ?_
    exact (leaves_cmd hhelo _ _).bind fun _ => Leaves.pure _
  have hgreet : Leaves allowed tls (greet r) := by
    refine Leaves.bind (leaves_modify (fun _ => rfl) fun _ => rfl) fun _ => ?_
    refine (leaves_ehlo hehlo _).result.bind fun x => ?_
    cases x with
    | ok _ => exact Leaves.pure _
    | error err =>
        refine hhelo'.result.bind fun y => ?_
        cases y with
        | ok _ => exact leaves_modify (fun _ => rfl) fun _ => rfl
        | error err => exact leaves_modify (fun _ => rfl) fun _ => rfl
  refine Leaves.bind (Leaves.get.bind fun c => ?_) fun _ => Leaves.get.bind fun c => ?_
  · split
    · exact Leaves.pure _
    · exact hgreet
  · split
    · exact Leaves.fail _
    · exact Leaves.pure _

theorem leaves_stopAt (front : String) (f : Option Fault) :
    Leaves allowed tls (EmailConfig.stopAt front f) := by
  unfold EmailConfig.stopAt
  cases f with
  | none => exact Leaves.pure _
  | some f => exact Leaves.fail _

theorem Untouched.mono {allowed' : Asked → Prop} {c : Client} (h : Untouched allowed tls c)
    (himp : ∀ a, allowed a → allowed' a) : Untouched allowed' tls c :=
  ⟨fun x hx => himp _ (h.log x hx), h.tls⟩

/-- The credential is offered on a connection that is encrypted, or is not. -/
def EmailConfig.Offers (cfg : EmailConfig) (tls : Bool) : Prop :=
  ((norm cfg.authMethod = "" ∨ norm cfg.authMethod = "plain") ∧ cfg.username ≠ "" ∧
      (tls = true ∨ cfg.host ∈ ["localhost", "127.0.0.1", "::1"])) ∨
    (norm cfg.authMethod = "login" ∧ tls = true)

/-- What the encryption of a configuration can come to. -/
def EmailConfig.Comes (cfg : EmailConfig) (tls : Bool) : Prop :=
  if tls then norm cfg.encryption ∈ ["tls", "starttls", ""]
  else norm cfg.encryption ∉ ["tls", "starttls"]

/-- Before the credential is offered, the connection is encrypted as far as it will be. -/
theorem meets_encrypted :
    Meets (Untouched (· ≠ .auth) (norm cfg.encryption == "tls")) (cfg.secure r)
      (fun usingTLS c => Untouched (· ≠ .auth) usingTLS c ∧ cfg.Comes usingTLS)
      fun _ c => ∀ x ∈ c.log, x.asked ≠ .auth := by
  have hhello : ∀ tls, Leaves (· ≠ .auth) tls (hello r) := fun _ => leaves_hello (by decide) (by decide)
  unfold EmailConfig.secure
  dsimp only
  by_cases hstart : norm cfg.encryption = "starttls" ∨ norm cfg.encryption = ""
  · rw [if_pos hstart]
    have hplain : (norm cfg.encryption == "tls") = false := by
      rcases hstart with h | h <;> simp [h]
    rw [hplain]
    have hext : Leaves (· ≠ .auth) false (extension r "STARTTLS") := by
      refine (hhello false).result.bind fun x => ?_
      cases x with
      | ok _ => exact Leaves.get.bind fun c => Leaves.pure _
      | error err => exact Leaves.pure _
    refine Meets.bind (hext.mono (fun _ _ h => h) fun _ _ h => h.log) fun offered => ?_
    cases offered with
    | true =>
        refine Meets.bind (Q := fun _ => Untouched (· ≠ .auth) true) ?_ fun _ =>
          Meets.pure fun c hc => ⟨hc, ?_⟩
        · refine Meets.mapError (E := fun _ c => ∀ x ∈ c.log, x.asked ≠ .auth) ?_ fun _ _ h => h
          refine Meets.bind ((hhello false).mono (fun _ _ h => h) fun _ _ h => h.log) fun _ => ?_
          refine Meets.bind ((leaves_cmd (by decide) _ _).mono (fun _ _ h => h)
            fun _ _ h => h.log) fun _ => ?_
          refine Meets.bind (Q := fun _ => Untouched (· ≠ .auth) true)
            (Meets.modify fun c hc => ⟨hc.log, rfl⟩) fun _ => ?_
          exact (leaves_ehlo (by decide) _).mono (fun _ _ h => h) fun _ _ h => h.log
        · show norm cfg.encryption ∈ ["tls", "starttls", ""]
          rcases hstart with h | h <;> simp [h]
    | false =>
        by_cases hdemand : norm cfg.encryption = "starttls"
        · rw [if_neg (by simp), if_pos hdemand]
          exact Meets.fail fun c hc => hc.log
        · rw [if_neg (by simp), if_neg hdemand]
          refine Meets.pure fun c hc => ⟨hc, ?_⟩
          show norm cfg.encryption ∉ ["tls", "starttls"]
          simp [hstart.resolve_left hdemand]
  · rw [if_neg hstart]
    refine Meets.pure fun c hc => ⟨hc, ?_⟩
    unfold EmailConfig.Comes
    by_cases htls : norm cfg.encryption = "tls"
    · simp [htls]
    · have hnot : (norm cfg.encryption == "tls") = false := by simpa using htls
      have hno : norm cfg.encryption ≠ "starttls" := fun h => hstart (.inl h)
      rw [hnot, if_neg (by simp)]
      simp [htls, hno]

theorem leaves_authLoop (ha : allowed .auth) (auth : Auth) (last : Fault)
    (answers : List (Answer Fault)) : Leaves allowed tls (authLoop auth last answers) := by
  induction answers with
  | nil => exact Leaves.fail _
  | cons a rest ih =>
      refine (leaves_cmd ha _ _).bind fun v => (Leaves.ofExcept _).bind fun x => ?_
      cases x with
      | none => exact Leaves.pure _
      | some _ => exact ih

theorem leaves_run {auth : Auth} {host : String} (hother : ∀ a, a ≠ .auth → allowed a)
    (hstart : auth.start host tls = .ok () → allowed .auth) : Leaves allowed tls (auth.run host r) := by
  refine (leaves_hello (hother _ (by decide)) (hother _ (by decide))).bind fun _ => ?_
  refine Meets.bind (Q := fun c c' => Untouched allowed tls c' ∧ c = c')
    (Meets.get fun c hc => ⟨hc, rfl⟩) fun c => ?_
  refine Meets.bind
    (Q := fun _ c' => Untouched allowed tls c' ∧ auth.start host tls = .ok ()) ?_ fun _ => ?_
  · refine Meets.ofExcept (fun _ c' hok hc => ⟨hc.1, ?_⟩) fun _ _ _ hc => hc.1
    rw [← hc.1.tls, ← hc.2]
    exact hok
  · intro c' hc
    exact leaves_authLoop (hstart hc.2) auth r.authEnd r.auth c' hc.1

/-- **An answer to `AUTH` is only read where the credential is offered.** -/
theorem leaves_authenticate (hother : ∀ a, a ≠ .auth → allowed a)
    (hauth : cfg.Offers tls → allowed .auth) : Leaves allowed tls (cfg.authenticate std r tls) := by
  unfold EmailConfig.authenticate
  dsimp only
  split
  · rename_i hplain
    split
    · rename_i huser
      refine (leaves_run hother fun hstart => hauth (.inl ⟨hplain, huser, ?_⟩)).wrapped _
      by_contra hneither
      rw [not_or, Bool.not_eq_true] at hneither
      have hlocal : ["localhost", "127.0.0.1", "::1"].contains cfg.host = false := by
        rw [← Bool.not_eq_true, List.contains_iff_mem]
        exact hneither.2
      unfold plainAuth at hstart
      dsimp only at hstart
      rw [hneither.1, hlocal] at hstart
      cases hstart
    · exact Leaves.pure _
  · split
    · rename_i hlogin
      refine (leaves_run hother fun hstart => hauth (.inr ⟨hlogin, ?_⟩)).wrapped _
      by_contra hplain
      rw [Bool.not_eq_true] at hplain
      unfold loginAuth at hstart
      rw [hplain] at hstart
      cases hstart
    · split
      · exact Leaves.pure _
      · exact Leaves.fail _

theorem leaves_offer (ha : allowed .rcpt) (recipients : List String) :
    ∀ (i accepted : Nat) (refused : Option GoErr),
      Leaves allowed tls (EmailConfig.offer r i recipients accepted refused) := by
  induction recipients with
  | nil => exact fun _ _ _ => Leaves.pure _
  | cons addr rest ih =>
      intro i accepted refused
      have hrcpt : Leaves allowed tls (rcpt (r.rcpt i) (trim addr)) :=
        (Leaves.ofExcept _).bind fun _ => (leaves_cmd ha _ _).bind fun _ => Leaves.pure _
      refine hrcpt.result.bind fun x => ?_
      cases x with
      | ok _ => exact ih _ _ _
      | error err => exact ih _ _ _

theorem leaves_mail (hother : ∀ a, a ≠ .auth → allowed a) (sender : String) :
    Leaves allowed tls (mail r sender) := by
  refine (Leaves.ofExcept _).bind fun _ => Leaves.bind ?_ fun _ => ?_
  · exact leaves_hello (hother _ (by decide)) (hother _ (by decide))
  · exact (leaves_cmd (hother _ (by decide)) _ _).bind fun _ => Leaves.pure _

theorem leaves_address (hother : ∀ a, a ≠ .auth → allowed a) :
    Leaves allowed tls (cfg.address r) := by
  refine (leaves_offer (hother _ (by decide)) _ _ _ _).bind fun x => ?_
  dsimp only
  split
  · exact Leaves.fail _
  · exact Leaves.pure _

theorem leaves_transmit (hother : ∀ a, a ≠ .auth → allowed a) :
    Leaves allowed tls (EmailConfig.transmit r) := by
  refine ((leaves_cmd (hother _ (by decide)) _ _).wrapped _).bind fun _ => ?_
  refine (leaves_stopAt _ _).bind fun _ => ?_
  exact ((leaves_cmd (hother _ (by decide)) _ _).wrapped _).bind fun _ => Leaves.pure _

/-- The encryption is settled, and an answer to `AUTH` was read only if the credential was
offered under it. -/
def EmailConfig.Settled (cfg : EmailConfig) (c : Client) : Prop :=
  ∃ tls, cfg.Comes tls ∧ Untouched (fun a => a = .auth → cfg.Offers tls) tls c

/-- A relay that answered `AUTH` was offered the credential, as well protected as it could be. -/
def EmailConfig.Told (cfg : EmailConfig) (c : Client) : Prop :=
  (c.log.any fun x => x.asked == .auth) = true → cfg.Offers c.tls ∧ cfg.Comes c.tls

theorem told_of_unasked {c : Client} (h : ∀ x ∈ c.log, x.asked ≠ .auth) : cfg.Told c := by
  intro hany
  obtain ⟨x, hx, hauth⟩ := List.any_eq_true.mp hany
  exact absurd (by simpa using hauth) (h x hx)

theorem EmailConfig.Settled.told {c : Client} (h : cfg.Settled c) : cfg.Told c := by
  obtain ⟨tls, hcomes, hlog, rfl⟩ := h
  intro hany
  obtain ⟨x, hx, hauth⟩ := List.any_eq_true.mp hany
  exact ⟨hlog x hx (by simpa using hauth), hcomes⟩

theorem meets_settled {m : Conversation α}
    (hm : ∀ tls, Leaves (fun a => a = .auth → cfg.Offers tls) tls m) :
    Meets cfg.Settled m (fun _ => cfg.Settled) fun _ => cfg.Told := by
  rintro c ⟨tls, hcomes, hc⟩
  obtain ⟨hok, herr⟩ := hm tls c hc
  exact ⟨fun a ha => ⟨tls, hcomes, hok a ha⟩,
    fun e he => EmailConfig.Settled.told ⟨tls, hcomes, herr e he⟩⟩

/-- **What a relay comes to be offered**, and how well protected. -/
theorem told_client (std : Stdlib) (cfg : EmailConfig) (r : Relay) :
    cfg.Told (cfg.client std r).2 := by
  have hother : ∀ tls a, a ≠ Asked.auth → a = Asked.auth → cfg.Offers tls :=
    fun _ _ hne heq => absurd heq hne
  have hconnect : Leaves (· ≠ .auth) (norm cfg.encryption == "tls") (cfg.connect r) :=
    (leaves_stopAt _ _).bind fun _ => ((leaves_cmd (by decide) _ _).wrapped _).bind fun _ =>
      Leaves.pure _
  have hopening : Meets (Untouched (· ≠ .auth) (norm cfg.encryption == "tls")) (cfg.opening std r)
      (fun _ => cfg.Settled) fun _ => cfg.Told := by
    refine Meets.bind (hconnect.mono (fun _ _ h => h) fun _ _ h => told_of_unasked h.log)
      fun _ => ?_
    refine Meets.bind (meets_encrypted.mono (fun _ _ h => h) fun _ _ h => told_of_unasked h)
      fun usingTLS => ?_
    refine Meets.bind (Q := fun _ => cfg.Settled) ?_ fun _ =>
      meets_settled fun tls => (leaves_mail (hother tls) _).wrapped _
    rintro c ⟨hc, hcomes⟩
    have hauth := @leaves_authenticate std _ r _ _ (hother usingTLS) fun h _ => h
    obtain ⟨hok, herr⟩ := hauth c (hc.mono (hother usingTLS))
    exact ⟨fun a ha => ⟨usingTLS, hcomes, hok a ha⟩,
      fun e he => EmailConfig.Settled.told ⟨usingTLS, hcomes, herr e he⟩⟩
  have hall : Meets (Untouched (· ≠ .auth) (norm cfg.encryption == "tls")) (cfg.converse std r)
      (fun _ => cfg.Told) fun _ => cfg.Told := by
    refine Meets.bind hopening fun _ => ?_
    refine Meets.bind (meets_settled fun tls => leaves_address (hother tls)) fun _ => ?_
    exact (meets_settled fun tls => leaves_transmit (hother tls)).mono (fun _ _ h => h.told)
      fun _ _ h => h
  obtain ⟨hok, herr⟩ := hall { tls := norm cfg.encryption == "tls" } ⟨by simp, rfl⟩
  show cfg.Told (cfg.converse std r { tls := norm cfg.encryption == "tls" }).2
  cases hresult : (cfg.converse std r { tls := norm cfg.encryption == "tls" }).1 with
  | ok a => exact hok a hresult
  | error e => exact herr e hresult

/-! ## A relay that asks -/

/-- A relay that offers `STARTTLS` or does not, and refuses the credential. -/
def askingRelay (offered : Bool) : Relay where
  connect := none
  greeting := ⟨[octets "220 "], .other ""⟩
  ehlo := ⟨if offered then [octets "250-", octets "250 STARTTLS"] else [octets "250 "], .other ""⟩
  helo := ⟨[], .other ""⟩
  starttls := ⟨[octets "220 "], .other ""⟩
  ehloTLS := ⟨[octets "250 "], .other ""⟩
  auth := [⟨[octets "535 "], .other ""⟩]
  authEnd := .other ""
  mail := ⟨[], .other ""⟩
  rcpt := fun _ => ⟨[], .other ""⟩
  data := ⟨[], .other ""⟩
  write := none
  closing := ⟨[], .other ""⟩

theorem hello_asking (offered : Bool) (c : Client) (h : c.helloError = none) :
    ∃ c', hello (askingRelay offered) c = (.ok (), c') ∧ c'.helloError = none ∧ c'.tls = c.tls := by
  obtain ⟨tls, didHello, helloError, ext, log⟩ := c
  obtain rfl : helloError = none := h
  cases didHello <;> cases offered <;> exact ⟨_, rfl, rfl, rfl⟩

/-- The client that has read the greeting. -/
def greeted (tls : Bool) : Client := { tls, log := [⟨.greeting, some 220⟩] }

theorem connect_asking (offered tls : Bool) :
    cfg.connect (askingRelay offered) { tls } = (.ok (), greeted tls) := rfl

theorem extension_asking (offered : Bool) :
    ∃ c, extension (askingRelay offered) "STARTTLS" (greeted false) = (.ok offered, c) ∧
      c.helloError = none ∧ c.tls = false ∧ c.didHello = true := by
  cases offered <;> exact ⟨_, rfl, rfl, rfl, rfl⟩

theorem startTLS_asking {c : Client} (h : c.helloError = none) (hdone : c.didHello = true) :
    ∃ c', startTLS (askingRelay true) c = (.ok (), c') ∧ c'.helloError = none ∧ c'.tls = true := by
  obtain ⟨tls, didHello, helloError, ext, log⟩ := c
  obtain rfl : helloError = none := h
  obtain rfl : didHello = true := hdone
  exact ⟨_, rfl, rfl, rfl⟩

/-- What the encryption can come to, it comes to with one of these relays. -/
theorem secure_asking {tls : Bool} (hcomes : cfg.Comes tls) :
    ∃ c, cfg.secure (askingRelay tls) (greeted (norm cfg.encryption == "tls")) = (.ok tls, c) ∧
      c.helloError = none ∧ c.tls = tls := by
  unfold EmailConfig.secure
  cases tls with
  | true =>
      by_cases himplicit : norm cfg.encryption = "tls"
      · rw [himplicit, if_neg (by decide)]
        exact ⟨_, rfl, rfl, rfl⟩
      · have hstart : norm cfg.encryption = "starttls" ∨ norm cfg.encryption = "" := by
          have hmem : norm cfg.encryption ∈ ["tls", "starttls", ""] := hcomes
          simpa [himplicit] using hmem
        have hplain : (norm cfg.encryption == "tls") = false := by simpa using himplicit
        obtain ⟨c, hext, herr, _, hdone⟩ := extension_asking true
        obtain ⟨c', hstarted, herr', htls⟩ := startTLS_asking herr hdone
        refine ⟨c', ?_, herr', htls⟩
        rw [if_pos hstart, hplain, bind_of_ok hext, if_pos rfl]
        have hwrapped : wrapped "starttls: " (startTLS (askingRelay true)) c = (.ok (), c') := by
          unfold wrapped Attempt.mapError
          rw [hstarted]
        rw [bind_of_ok hwrapped]
        rfl
  | false =>
      have hnot : norm cfg.encryption ∉ ["tls", "starttls"] := hcomes
      simp only [List.mem_cons, List.not_mem_nil, or_false, not_or] at hnot
      have hplain : (norm cfg.encryption == "tls") = false := by simpa using hnot.1
      rw [hplain]
      by_cases hempty : norm cfg.encryption = ""
      · obtain ⟨c, hext, herr, htls, _⟩ := extension_asking false
        refine ⟨c, ?_, herr, htls⟩
        rw [if_pos (.inr hempty), bind_of_ok hext, if_neg (by simp), if_neg hnot.2]
        rfl
      · rw [if_neg (by simp [hnot.2, hempty])]
        exact ⟨_, rfl, rfl, rfl⟩

/-- The mechanism that is offered agrees to begin, and the relay's answer is read. -/
theorem run_asking {auth : Auth} {host : String} {offered : Bool} {c : Client}
    (h : c.helloError = none) (hstart : auth.start host c.tls = .ok ()) :
    ∃ err c', auth.run host (askingRelay offered) c = (.error err, c') ∧
      (c'.log.any fun x => x.asked == .auth) = true ∧ c'.tls = c.tls := by
  obtain ⟨c1, hhello, _, htls⟩ := hello_asking offered c h
  refine ⟨.smtp 535 (text []), { c1 with log := c1.log ++ [⟨.auth, some 535⟩] }, ?_, by simp, htls⟩
  unfold Auth.run
  have hstart' : auth.start host c1.tls = .ok () := by
    rw [htls]
    exact hstart
  rw [bind_of_ok hhello, bind_of_ok (show Attempt.get c1 = (.ok c1, c1) from rfl), hstart']
  rfl

theorem authenticate_asking {offered tls : Bool} {c : Client} (hoffers : cfg.Offers tls)
    (h : c.helloError = none) (htls : c.tls = tls) :
    ∃ err c', cfg.authenticate std (askingRelay offered) tls c = (.error err, c') ∧
      (c'.log.any fun x => x.asked == .auth) = true ∧ c'.tls = tls := by
  have hwrapped : ∀ {front : String} {m : Conversation Unit} {err : GoErr} {c' : Client},
      m c = (.error err, c') → wrapped front m c = (.error (.wrap front err), c') := by
    intro front m err c' hm
    unfold wrapped Attempt.mapError
    rw [hm]
  unfold EmailConfig.authenticate
  rcases hoffers with ⟨hmethod, huser, hsafe⟩ | ⟨hmethod, hsafe⟩
  · rw [if_pos hmethod, if_pos huser]
    have hstart : (plainAuth cfg.host).start cfg.host c.tls = .ok () := by
      unfold plainAuth
      dsimp only
      rw [htls]
      rcases hsafe with rfl | hlocal
      · simp
      · have hcontains : ["localhost", "127.0.0.1", "::1"].contains cfg.host = true :=
          List.contains_iff_mem.mpr hlocal
        rw [hcontains]
        simp
    obtain ⟨err, c', hrun, hasked, htls'⟩ := @run_asking _ _ offered _ h hstart
    exact ⟨_, c', hwrapped hrun, hasked, htls'.trans htls⟩
  · rw [if_neg (by rw [hmethod]; decide), if_pos hmethod]
    have hstart : (loginAuth std cfg.username cfg.password cfg.host tls).start cfg.host c.tls
        = .ok () := by
      unfold loginAuth
      simp [hsafe]
    obtain ⟨err, c', hrun, hasked, htls'⟩ := @run_asking _ _ offered _ h hstart
    exact ⟨_, c', hwrapped hrun, hasked, htls'.trans htls⟩

/-- **What can be offered is offered** to one of these relays. -/
theorem asked_asking {tls : Bool} (hoffers : cfg.Offers tls) (hcomes : cfg.Comes tls) :
    ((cfg.client std (askingRelay tls)).2.log.any fun x => x.asked == .auth) = true ∧
      (cfg.client std (askingRelay tls)).2.tls = tls := by
  obtain ⟨c, hsecure, herr, htls⟩ := secure_asking hcomes
  obtain ⟨err, c', hauth, hasked, htls'⟩ :=
    @authenticate_asking std _ tls _ _ hoffers herr htls
  have hopening : cfg.opening std (askingRelay tls) { tls := norm cfg.encryption == "tls" }
      = (.error err, c') := by
    unfold EmailConfig.opening
    rw [bind_of_ok (connect_asking tls _), bind_of_ok hsecure, bind_of_error hauth]
  have hclient : cfg.client std (askingRelay tls) = (.error err, c') := by
    unfold EmailConfig.client EmailConfig.converse
    rw [bind_of_error hopening]
  rw [hclient]
  exact ⟨hasked, htls'⟩

end

end SnmpLens.Notify
