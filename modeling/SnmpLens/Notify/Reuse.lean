import SnmpLens.Notify.Binding
import SnmpLens.Notify.Offered

/-!
# When a credential may be reused

An email sink's password goes out on the channels that `Offers` and `Comes` allow, so
whether an edit with the same destination weakens its protection is a matter of the
fields alone, as it is for a webhook. Both kinds miss the same thing: the destination
leaves out what turns the verification of certificates off.
-/

namespace SnmpLens.Notify

open Utf8

/-! ## The email sink -/

section Email

variable {std : Stdlib} {cfg : EmailConfig}

/-- **The channels an email sink's password goes out on.** -/
theorem hands_email {lower : Lower} {ch : Channel} :
    (∃ o, cfg.hands std lower o = some ch) ↔
      cfg.ready std = .ok () ∧ cfg.Offers ch.encrypted ∧ cfg.Comes ch.encrypted ∧
        ch = { host := lower.norm cfg.host, port := some cfg.dialled, encrypted := ch.encrypted
               verified := !cfg.insecureSkipVerify } := by
  unfold EmailConfig.hands
  cases hready : cfg.ready std with
  | error err => simp
  | ok _ =>
      constructor
      · rintro ⟨o, ho⟩
        dsimp only at ho
        split at ho
        · rename_i hasked
          obtain rfl := Option.some.inj ho
          obtain ⟨hoffers, hcomes⟩ := told_client std cfg o.relay hasked
          exact ⟨rfl, hoffers, hcomes, rfl⟩
        · cases ho
      · rintro ⟨_, hoffers, hcomes, heq⟩
        obtain ⟨hasked, htls⟩ := @asked_asking std _ _ hoffers hcomes
        refine ⟨{ event := {}, subject := "", body := "", relay := askingRelay ch.encrypted }, ?_⟩
        dsimp only
        rw [if_pos hasked, htls, heq]

/-- An edit that offers the password only to the stored host and port, and as well verified. -/
def EmailConfig.NoWeaker (std : Stdlib) (lower : Lower) (stored edited : EmailConfig) : Prop :=
  ∀ tls, edited.ready std = .ok () → edited.Offers tls → edited.Comes tls →
    (lower.norm edited.host = lower.norm stored.host ∧ edited.port = stored.port) ∧
      (tls = true → edited.insecureSkipVerify = true → stored.insecureSkipVerify = true)

theorem Lower.norm_eq_iff (lower : Lower) {s w : String} (hw : ∀ c ∈ w.toList, c.toNat < 128) :
    lower.norm s = w ↔ Notify.norm s = w := by
  unfold Lower.norm Notify.norm
  constructor
  · intro h
    rw [← h] at hw ⊢
    rw [String.toList_ofList] at hw
    refine congrArg String.ofList (List.map_congr_left fun c hc => ?_)
    exact (lower.ascii c (.inl (hw _ (List.mem_map_of_mem hc)))).symm
  · intro h
    rw [← h] at hw ⊢
    rw [String.toList_ofList] at hw
    refine congrArg String.ofList (List.map_congr_left fun c hc => ?_)
    exact lower.ascii c (.inr (hw _ (List.mem_map_of_mem hc)))

theorem encrypted_iff (lower : Lower) (s : String) :
    (norm s = "tls" ∨ norm s = "starttls") ↔
      (lower.norm s = "tls" ∨ lower.norm s = "starttls") := by
  have hascii : ∀ w ∈ ["tls", "starttls"], ∀ c ∈ w.toList, c.toNat < 128 := by
    have hall : ["tls", "starttls"].all (fun w => w.toList.all fun c => c.toNat < 128) = true := by
      decide
    intro w hw c hc
    exact of_decide_eq_true (List.all_eq_true.mp (List.all_eq_true.mp hall w hw) c hc)
  rw [lower.norm_eq_iff (hascii _ (by decide)), lower.norm_eq_iff (hascii _ (by decide))]

/-- With one host, a port and its default are told apart by the destination. -/
theorem joined_port {lower : Lower} {e e' : EmailConfig} (hjoined : e.joined lower = e'.joined lower)
    (hhost : lower.norm e.host = lower.norm e'.host) (hdialled : e.dialled = e'.dialled) :
    e.port = e'.port := by
  unfold EmailConfig.joined at hjoined
  rw [hhost, String.append_assoc, String.append_assoc, String.append_assoc, String.append_assoc,
    String.append_assoc, String.append_assoc] at hjoined
  have hrest := append_left_cancel (append_left_cancel hjoined)
  have hheads : ∀ x y : String, toString (0 : Int) ++ x ≠ toString (587 : Int) ++ y := by
    intro x y heq
    have hzero : toString (0 : Int) = String.ofList ['0'] := by decide
    have hfive : toString (587 : Int) = String.ofList ['5', '8', '7'] := by decide
    rw [hzero, hfive] at heq
    have := congrArg String.toList heq
    simp at this
  unfold EmailConfig.dialled at hdialled
  split at hdialled
  · rename_i hzero
    split at hdialled
    · rename_i hzero'
      rw [hzero, hzero']
    · rw [hzero, ← hdialled] at hrest
      exact absurd hrest (hheads _ _)
  · split at hdialled
    · rename_i hzero'
      rw [hzero', hdialled] at hrest
      exact absurd hrest.symm (hheads _ _)
    · exact hdialled

variable {lower : Lower} {s c : SinkConfig} {secret : String}

theorem build_email {cfg : SinkConfig} (hkind : cfg.kind = "email") (hsecret : secret ≠ "") :
    build cfg secret = some (.email { cfg.email with password := secret }) := by
  unfold build
  dsimp only
  rw [if_neg hsecret, hkind, if_neg (by decide), if_neg (by decide), if_pos rfl]

theorem protected_email (hs : s.kind = "email") (hc : c.kind = "email")
    (hjoined : s.email.joined lower = c.email.joined lower) (hsecret : secret ≠ "") :
    Protected std lower s c secret ↔ EmailConfig.NoWeaker std lower s.email c.email := by
  have hverifies : s.Verifies ↔ s.email.insecureSkipVerify = false := by
    unfold SinkConfig.Verifies
    rw [if_neg (by rw [hs]; decide), if_pos hs]
  have hencrypts : s.Encrypts std secret ↔
      norm s.email.encryption = "tls" ∨ norm s.email.encryption = "starttls" := by
    unfold SinkConfig.Encrypts
    rw [build_email hs hsecret]
  have hplace : s.place std lower secret = some (lower.norm s.email.host, some s.email.dialled) := by
    unfold SinkConfig.place
    rw [build_email hs hsecret]
    rfl
  constructor
  · intro hprotected tls hready hoffers hcomes
    obtain ⟨o, ho⟩ := (@hands_email _ { c.email with password := secret } lower
      { host := lower.norm c.email.host, port := some c.email.dialled, encrypted := tls
        verified := !c.email.insecureSkipVerify }).mpr ⟨hready, hoffers, hcomes, rfl⟩
    obtain ⟨hsame, _, hverified⟩ := hprotected _ o _ (build_email hc hsecret) ho
    rw [hplace] at hsame
    obtain ⟨hhost, hport⟩ := Prod.mk.inj (Option.some.inj hsame)
    refine ⟨⟨hhost.symm, (joined_port hjoined hhost (Option.some.inj hport)).symm⟩, ?_⟩
    intro htls hinsecure
    by_contra hsecure
    have := hverified (hverifies.mpr (by simpa using hsecure)) htls
    simp [hinsecure] at this
  · intro hweaker sink o ch hbuild hhands
    obtain rfl := Option.some.inj ((build_email hc hsecret).symm.trans hbuild)
    obtain ⟨hready, hoffers, hcomes, heq⟩ := hands_email.mp ⟨o, hhands⟩
    obtain ⟨⟨hhost, hport⟩, hskip⟩ := hweaker ch.encrypted hready hoffers hcomes
    have hdialled : c.email.dialled = s.email.dialled := by
      unfold EmailConfig.dialled
      rw [hport]
    refine ⟨?_, fun henc => ?_, fun hver htls => ?_⟩
    · rw [hplace, heq, ← hhost, ← hdialled]
      rfl
    · -- the rest of the destination is the encryption
      have hrest : lower.norm s.email.encryption = lower.norm c.email.encryption := by
        unfold EmailConfig.joined at hjoined
        rw [hhost, hport] at hjoined
        exact append_left_cancel hjoined
      rw [hencrypts, encrypted_iff lower, hrest, ← encrypted_iff lower] at henc
      by_contra hclear
      rw [Bool.not_eq_true] at hclear
      rw [hclear] at hcomes
      have hnot : norm c.email.encryption ∉ ["tls", "starttls"] := hcomes
      rcases henc with h | h
      · exact hnot (by simp [h])
      · exact hnot (by simp [h])
    · have hsecure := hverifies.mp hver
      have hno : ¬ c.email.insecureSkipVerify = true := by
        intro hinsecure
        have := hskip htls hinsecure
        rw [hsecure] at this
        cases this
      rw [heq]
      simpa using hno

end Email

/-! ## Every kind -/

/-- What an edit of a sink with the same destination may not do. -/
def NoWeaker (std : Stdlib) (lower : Lower) (s c : SinkConfig) (secret : String) : Prop :=
  (c.kind = "webhook" →
      WebhookConfig.NoWeaker std (s.webhook.withToken secret) (c.webhook.withToken secret)) ∧
    (c.kind = "email" → EmailConfig.NoWeaker std lower s.email c.email)

/--
**A credential is reused under the protection it was stored for, unless the edit weakens it.**

For a stored sink and an edited one with the same destination, sending with the edited
one hands the stored credential only to the stored host and port, encrypted where the
stored one let it out no other way, and verified where the stored one verified, exactly
when the edit is no weaker in the fields that the destination leaves out.
-/
theorem reuse_protected {std : Stdlib} {lower : Lower} {s c : SinkConfig} {secret : String}
    (hsame : sameDestination lower s c = true) (hsecret : secret ≠ "") :
    Protected std lower s c secret ↔ NoWeaker std lower s c secret := by
  unfold NoWeaker
  rcases same_kind hsame with ⟨_, hc⟩ | ⟨hs, hc, hurl⟩ | ⟨hs, hc, hjoined⟩
  · have hbuild : build c secret = some (.syslog { c.syslog with clientKey := secret }) := by
      unfold build
      dsimp only
      rw [if_neg hsecret, if_pos hc]
    refine iff_of_true ?_ ⟨fun h => ?_, fun h => ?_⟩
    · -- nothing is handed over
      intro sink o ch hsink hhands
      obtain rfl := Option.some.inj (hbuild.symm.trans hsink)
      exact absurd hhands (by simp [Sink.hands])
    · rw [hc] at h
      exact absurd h (by decide)
    · rw [hc] at h
      exact absurd h (by decide)
  · rw [protected_webhook hs hc hurl hsecret]
    refine ⟨fun h => ⟨fun _ => h, fun hkind => ?_⟩, fun h => h.1 hc⟩
    rw [hc] at hkind
    exact absurd hkind (by decide)
  · rw [protected_email hs hc hjoined hsecret]
    refine ⟨fun h => ⟨fun hkind => ?_, fun _ => h⟩, fun h => h.2 hc⟩
    rw [hc] at hkind
    exact absurd hkind (by decide)

/-- A relay that a password is on file for. -/
def storedMail : SinkConfig where
  id := "mail"
  name := "Mail"
  kind := "email"
  enabled := true
  redact := false
  email :=
    { host := "mail.example", port := 587, username := "alerts", sender := "alerts@example"
      recipients := ["noc@example"], encryption := "starttls", authMethod := "plain" }

/-- The same relay, its certificate no longer verified. -/
def unverifiedMail : SinkConfig :=
  { storedMail with email := { storedMail.email with insecureSkipVerify := true } }

/-- A lower case of ASCII alone. -/
def asciiLower : Lower := ⟨toLower, fun _ _ => rfl⟩

/-- A library that finds nothing wrong. -/
def agreeableLib : Stdlib where
  isPrint := fun _ => true
  toUpper := id
  appendCertsFromPEM := fun _ => true
  x509KeyPair := fun _ _ => none
  parseURL := fun _ => .ok { scheme := "https", host := "hooks.example" }
  newRequest := fun _ _ => none
  jsonValid := fun _ => true
  xmlTokens := fun _ => ([], none)
  marshal := fun _ _ _ => .ok "\x7b\x7d"

/-- Renamed, a sink keeps its password. -/
theorem reuse_protected_renamed :
    Protected agreeableLib asciiLower storedMail { storedMail with name := "Relay" } "hunter2" ↔
      NoWeaker agreeableLib asciiLower storedMail { storedMail with name := "Relay" } "hunter2" :=
  reuse_protected (by decide) (by decide)

/-- **The same destination, unverified**: the password is kept, and goes to whoever answers. -/
theorem reused_unverified :
    sameDestination asciiLower storedMail unverifiedMail = true ∧ storedMail.Verifies ∧
      savedSecret asciiLower (some storedMail) "hunter2" unverifiedMail = "hunter2" ∧
      (∃ sink o, build unverifiedMail "hunter2" = some sink ∧
        sink.hands agreeableLib asciiLower o = some
          { host := "mail.example", port := some 587, encrypted := true, verified := false }) ∧
      ¬ Protected agreeableLib asciiLower storedMail unverifiedMail "hunter2" := by
  have hverifies : storedMail.Verifies := by
    unfold SinkConfig.Verifies
    rw [if_neg (by decide), if_pos (by decide)]
    rfl
  have hbuild : build unverifiedMail "hunter2"
      = some (.email { unverifiedMail.email with password := "hunter2" }) :=
    build_email rfl (by decide)
  obtain ⟨o, ho⟩ := (@hands_email agreeableLib { unverifiedMail.email with password := "hunter2" }
    asciiLower { host := "mail.example", port := some 587, encrypted := true, verified := false }).mpr
    ⟨rfl, .inl ⟨.inr (by decide), by decide, .inl rfl⟩,
      show norm unverifiedMail.email.encryption ∈ ["tls", "starttls", ""] by decide, by decide⟩
  refine ⟨by decide, hverifies, by decide, ⟨_, o, hbuild, ho⟩, ?_⟩
  intro hprotected
  have hverified := (hprotected _ o _ hbuild ho).2.2 hverifies rfl
  cases hverified

end SnmpLens.Notify
