import SnmpLens.Notify.Email
import SnmpLens.Notify.Webhook

/-!
# A credential and its destination

`Destination` names where a sink sends, and a stored credential may be used with no
other: that is how a store the renderer can only write to stays one. A destination is
the kind and a few fields joined by bars. What a sink then does with the credential
reads more fields than those, so this module says of each kind on which channel the
other end comes to have it, and compares that with what the stored configuration
asked for.
-/

namespace SnmpLens.Notify

open Utf8

/-! ## Where a sink sends -/

/-- `unicode.ToLower`, which makes ASCII characters of the same ones as `toLower`. -/
structure Lower where
  map : Char → Char
  ascii : ∀ c, (map c).toNat < 128 ∨ (toLower c).toNat < 128 → map c = toLower c

/-- `norm` of `Destination`. -/
def Lower.norm (lower : Lower) (s : String) : String :=
  String.ofList ((trimSpace s.toList).map lower.map)

def destination (lower : Lower) (cfg : SinkConfig) : Option String :=
  if cfg.kind = "syslog" then
    some ("syslog|" ++ lower.norm cfg.syslog.protocol ++ "|" ++ lower.norm cfg.syslog.address)
  else if cfg.kind = "webhook" then some ("webhook|" ++ trim cfg.webhook.url)
  else if cfg.kind = "email" then
    some ("email|" ++ lower.norm cfg.email.host ++ "|" ++ toString cfg.email.port ++ "|"
      ++ lower.norm cfg.email.encryption)
  else none

def sameDestination (lower : Lower) (a b : SinkConfig) : Bool :=
  match destination lower a with
  | none => false
  | some da => destination lower b == some da

/-! ## Using a credential that was not retyped -/

/-- `boundSinkSecret`: the configuration on file under the id, if there is one, and the credential. -/
def boundSinkSecret (lower : Lower) (stored : Option SinkConfig) (onFile : String)
    (cfg : SinkConfig) : Except GoErr String :=
  match stored with
  | none => .ok ""
  | some s =>
      if sameDestination lower s cfg then .ok onFile
      else .error (.plain ("this destination differs from the saved one, so the stored credential "
        ++ "cannot be used with it. Enter the credential to test the new destination"))

/-- `NotifyTestSink`: the sink a test is sent through. -/
def testSink (lower : Lower) (stored : Option SinkConfig) (onFile : String) (cfg : SinkConfig) :
    Except GoErr (Option Sink) := do
  let secret ← if cfg.secret = "" then boundSinkSecret lower stored onFile cfg else .ok cfg.secret
  return build cfg secret

/-- `NotifySaveSink`: the credential on file afterwards. -/
def savedSecret (lower : Lower) (stored : Option SinkConfig) (onFile : String) (cfg : SinkConfig) :
    String :=
  if cfg.secret ≠ "" then cfg.secret
  else if stored.any fun s => !sameDestination lower s cfg then ""
  else onFile

/-! ## The channels a credential goes out on -/

/-- A connection on which the other end has a credential, or has it by asking. -/
structure Channel where
  host : String
  /-- Where it is not a part of the host. -/
  port : Option Int
  encrypted : Bool
  verified : Bool
deriving DecidableEq, Repr

/-- What a send depends on besides the configuration. -/
structure Occasion where
  event : Events.Event
  subject : String
  body : String
  relay : Relay

/-- `strings.ToLower` of a scheme. -/
def URL.lowerScheme (u : URL) : String := String.ofList (u.scheme.toList.map toLower)

/-- A webhook's request carries its token in a header. -/
def WebhookConfig.hands (std : Stdlib) (w : WebhookConfig) (o : Occasion) : Option Channel :=
  match w.validate std, w.request std o.event o.subject o.body with
  | .ok u, .ok _ =>
      some { host := u.host, port := none, encrypted := u.lowerScheme == "https"
             verified := !w.insecureSkipVerify }
  | _, _ => none

/-- The port an email sink dials. -/
def EmailConfig.dialled (cfg : EmailConfig) : Int := if cfg.port = 0 then 587 else cfg.port

/-- A relay that answers an `AUTH` line has had the password, or is asked what it wants next. -/
def EmailConfig.hands (std : Stdlib) (lower : Lower) (cfg : EmailConfig) (o : Occasion) :
    Option Channel :=
  match cfg.ready std with
  | .error _ => none
  | .ok _ =>
      let c := (cfg.client std o.relay).2
      if c.log.any fun x => x.asked == .auth then
        some { host := lower.norm cfg.host, port := some cfg.dialled, encrypted := c.tls
               verified := !cfg.insecureSkipVerify }
      else none

/-- The channel a sink's credential goes out on. A syslog sink's key signs and stays here. -/
def Sink.hands (std : Stdlib) (lower : Lower) : Sink → Occasion → Option Channel
  | .syslog _, _ => none
  | .webhook w, o => w.hands std o
  | .email cfg, o => cfg.hands std lower o

/-! ## What the stored configuration asked for -/

/-- The host and the port a configuration names. -/
def SinkConfig.place (std : Stdlib) (lower : Lower) (cfg : SinkConfig) (secret : String) :
    Option (String × Option Int) :=
  match build cfg secret with
  | some (.webhook w) =>
      match std.parseURL w.resolvedURL with
      | .ok u => some (u.host, none)
      | .error _ => none
  | some (.email e) => some (lower.norm e.host, some e.dialled)
  | _ => none

/-- A configuration that lets no credential out in the clear. -/
def SinkConfig.Encrypts (std : Stdlib) (cfg : SinkConfig) (secret : String) : Prop :=
  match build cfg secret with
  | some (.webhook w) => ∀ u, w.validate std = .ok u → u.lowerScheme = "https"
  | some (.email e) => norm e.encryption = "tls" ∨ norm e.encryption = "starttls"
  | _ => True

/-- A configuration that has certificates verified. -/
def SinkConfig.Verifies (cfg : SinkConfig) : Prop :=
  if cfg.kind = "webhook" then cfg.webhook.insecureSkipVerify = false
  else if cfg.kind = "email" then cfg.email.insecureSkipVerify = false
  else True

/-- Sending with `c` hands the credential to no one but where `s` sends, and as well protected. -/
def Protected (std : Stdlib) (lower : Lower) (s c : SinkConfig) (secret : String) : Prop :=
  ∀ sink o ch, build c secret = some sink → sink.hands std lower o = some ch →
    s.place std lower secret = some (ch.host, ch.port) ∧
      (s.Encrypts std secret → ch.encrypted = true) ∧
      (s.Verifies → ch.encrypted = true → ch.verified = true)

/-! ## The same destination -/

section Same

variable {lower : Lower} {s c : SinkConfig} {secret : String}

/-- What the destination of an email sink is compared by. -/
def EmailConfig.joined (lower : Lower) (e : EmailConfig) : String :=
  lower.norm e.host ++ "|" ++ toString e.port ++ "|" ++ lower.norm e.encryption

theorem append_left_cancel {front a b : String} (h : front ++ a = front ++ b) : a = b := by
  have hlist := congrArg String.toList h
  rw [String.toList_append, String.toList_append] at hlist
  exact String.toList_inj.mp (List.append_cancel_left hlist)

theorem of_destination {cfg : SinkConfig} {d : String} (h : destination lower cfg = some d) :
    (cfg.kind = "syslog" ∧ d.toList.head? = some 's') ∨
      (cfg.kind = "webhook" ∧ d.toList.head? = some 'w' ∧ d = "webhook|" ++ trim cfg.webhook.url) ∨
      (cfg.kind = "email" ∧ d.toList.head? = some 'e' ∧ d = "email|" ++ cfg.email.joined lower) := by
  have hhead : ∀ (a : Char) (x : List Char) (p : String),
      (String.ofList (a :: x) ++ p).toList.head? = some a := by
    intro a x p
    simp
  unfold destination at h
  split at h
  · rename_i hkind
    obtain rfl := Option.some.inj h
    refine .inl ⟨hkind, ?_⟩
    rw [String.append_assoc, String.append_assoc]
    exact hhead 's' "yslog|".toList _
  · split at h
    · rename_i hkind
      obtain rfl := Option.some.inj h
      exact .inr (.inl ⟨hkind, hhead 'w' "ebhook|".toList _, rfl⟩)
    · split at h
      · rename_i hkind
        have hjoined : "email|" ++ cfg.email.joined lower = d := by
          rw [← Option.some.inj h]
          unfold EmailConfig.joined
          simp only [String.append_assoc]
        rw [← hjoined]
        exact .inr (.inr ⟨hkind, hhead 'e' "mail|".toList _, rfl⟩)
      · cases h

/-- Sinks with one destination are of one kind, and agree on what it is made of. -/
theorem same_kind (h : sameDestination lower s c = true) :
    (s.kind = "syslog" ∧ c.kind = "syslog") ∨
      (s.kind = "webhook" ∧ c.kind = "webhook" ∧ trim s.webhook.url = trim c.webhook.url) ∨
      (s.kind = "email" ∧ c.kind = "email" ∧ s.email.joined lower = c.email.joined lower) := by
  unfold sameDestination at h
  cases hs : destination lower s with
  | none => exact absurd (hs ▸ h) (by simp)
  | some d =>
      rw [hs] at h
      have hc : destination lower c = some d := by simpa using h
      rcases of_destination hs with ⟨hks, hds⟩ | ⟨hks, hds, hws⟩ | ⟨hks, hds, hes⟩
      · rcases of_destination hc with ⟨hkc, hdc⟩ | ⟨hkc, hdc, _⟩ | ⟨hkc, hdc, _⟩
        · exact .inl ⟨hks, hkc⟩
        · exact absurd (hds.symm.trans hdc) (by simp)
        · exact absurd (hds.symm.trans hdc) (by simp)
      · rcases of_destination hc with ⟨hkc, hdc⟩ | ⟨hkc, hdc, hwc⟩ | ⟨hkc, hdc, _⟩
        · exact absurd (hds.symm.trans hdc) (by simp)
        · exact .inr (.inl ⟨hks, hkc, append_left_cancel (hws.symm.trans hwc)⟩)
        · exact absurd (hds.symm.trans hdc) (by simp)
      · rcases of_destination hc with ⟨hkc, hdc⟩ | ⟨hkc, hdc, _⟩ | ⟨hkc, hdc, hec⟩
        · exact absurd (hds.symm.trans hdc) (by simp)
        · exact absurd (hds.symm.trans hdc) (by simp)
        · exact .inr (.inr ⟨hks, hkc, append_left_cancel (hes.symm.trans hec)⟩)

end Same

/-! ## The webhook -/

section Webhook

variable {std : Stdlib} {w w' : WebhookConfig}

theorem fold_of_toLower {c d : Char} (hd : d ∈ ['h', 't', 'p']) (h : toLower c = d) :
    fold c = d := by
  unfold toLower at h
  unfold fold
  split at h
  · rename_i hcap
    rw [if_pos hcap, h]
  · rename_i hcap
    rw [if_neg hcap]
    split at h
    · subst h
      exact absurd hd (by decide)
    · split at h
      · subst h
        exact absurd hd (by decide)
      · rename_i hkelvin
        have hlong : c ≠ '\u017f' := by
          rintro rfl
          subst h
          exact absurd hd (by decide)
        rw [if_neg hlong, if_neg hkelvin, h]

theorem equalFold_http {u : URL} (h : u.lowerScheme = "http" ∨ u.lowerScheme = "https") :
    equalFold u.scheme "http" = true ↔ u.lowerScheme ≠ "https" := by
  unfold URL.lowerScheme at h ⊢
  unfold equalFold
  rw [beq_iff_eq]
  have hlength : ∀ word, String.ofList (u.scheme.toList.map toLower) = word →
      u.scheme.toList.length = word.toList.length := by
    rintro _ rfl
    simp
  constructor
  · intro hfold heq
    have hfour := congrArg List.length hfold
    rw [List.length_map, List.length_map, hlength _ heq] at hfour
    cases hfour
  · intro hne
    have hlower := congrArg String.toList (h.resolve_right hne)
    rw [String.toList_ofList] at hlower
    have hsame : u.scheme.toList.map fold = u.scheme.toList.map toLower := by
      refine List.map_congr_left fun c hc => fold_of_toLower ?_ rfl
      have hmem : toLower c ∈ "http".toList := hlower ▸ List.mem_map_of_mem hc
      have hletters : "http".toList.all (fun d => d ∈ ['h', 't', 'p']) = true := by decide
      exact of_decide_eq_true (List.all_eq_true.mp hletters _ hmem)
    rw [hsame, hlower]
    decide

/-- What is checked of an address that the credential is in, besides the address itself. -/
theorem validate_eq_ok_iff (hurl : w.resolvedURL = w'.resolvedURL)
    (hw' : w'.carriesCredential = true) {u : URL} (h : w.validate std = .ok u) :
    std.parseURL w'.resolvedURL = .ok u ∧
      (w'.validate std = .ok u ↔
        (u.lowerScheme ≠ "https" → w'.allowPlaintextHTTP = true ∨ isLoopback u.host = true)) := by
  unfold WebhookConfig.validate at h ⊢
  rw [hurl] at h
  dsimp only at h ⊢
  split at h
  · cases h
  · rename_i hraw
    rw [if_neg hraw]
    split at h
    · cases h
    · rename_i u' hparse
      rw [hparse]
      split at h
      · cases h
      · rename_i hscheme
        split at h
        · cases h
        · rename_i hhost
          split at h
          · cases h
          · obtain rfl := Except.ok.inj h
            refine ⟨rfl, ?_⟩
            rw [if_neg hscheme, if_neg hhost, hw']
            have hword : u'.lowerScheme = "http" ∨ u'.lowerScheme = "https" := by
              unfold URL.lowerScheme
              tauto
            have hplain := equalFold_http hword
            by_cases hhttp : u'.lowerScheme = "https"
            · have hfold : equalFold u'.scheme "http" = false := by
                rw [← Bool.not_eq_true, hplain]
                exact not_not.mpr hhttp
              simp [hfold, hhttp]
            · rw [hplain.mpr hhttp]
              cases w'.allowPlaintextHTTP <;> cases isLoopback u'.host <;> simp [hhttp]

/-- The webhook that `Build` makes. -/
def WebhookConfig.withToken (w : WebhookConfig) (secret : String) : WebhookConfig :=
  { w with token := secret }

theorem withToken_flags (w : WebhookConfig) (secret : String) :
    (w.withToken secret).insecureSkipVerify = w.insecureSkipVerify ∧
      (w.withToken secret).allowPlaintextHTTP = w.allowPlaintextHTTP := ⟨rfl, rfl⟩

/-- An edit that lets no credential out with less protection than the stored webhook asked for. -/
def WebhookConfig.NoWeaker (std : Stdlib) (stored edited : WebhookConfig) : Prop :=
  ∀ (o : Occasion) (u : URL), edited.request std o.event o.subject o.body = .ok () →
    edited.validate std = .ok u →
      (u.lowerScheme = "https" → edited.insecureSkipVerify = true →
        stored.insecureSkipVerify = true) ∧
      (u.lowerScheme ≠ "https" → stored.allowPlaintextHTTP = true ∨ isLoopback u.host = true)

theorem hands_webhook {o : Occasion} {ch : Channel} :
    w.hands std o = some ch ↔ ∃ u, w.validate std = .ok u ∧
      w.request std o.event o.subject o.body = .ok () ∧
      ch = { host := u.host, port := none, encrypted := u.lowerScheme == "https"
             verified := !w.insecureSkipVerify } := by
  unfold WebhookConfig.hands
  cases w.validate std with
  | error err => simp
  | ok u =>
      cases w.request std o.event o.subject o.body with
      | error err => simp
      | ok _ => simp [eq_comm]

variable {lower : Lower} {s c : SinkConfig} {secret : String}

theorem build_webhook {cfg : SinkConfig} (hkind : cfg.kind = "webhook") (hsecret : secret ≠ "") :
    build cfg secret = some (.webhook (cfg.webhook.withToken secret)) := by
  unfold build
  dsimp only
  rw [if_neg hsecret, hkind, if_neg (by decide), if_pos rfl]
  rfl

theorem protected_webhook (hs : s.kind = "webhook") (hc : c.kind = "webhook")
    (hurl : trim s.webhook.url = trim c.webhook.url) (hsecret : secret ≠ "") :
    Protected std lower s c secret ↔
      WebhookConfig.NoWeaker std (s.webhook.withToken secret) (c.webhook.withToken secret) := by
  have hresolved : (c.webhook.withToken secret).resolvedURL
      = (s.webhook.withToken secret).resolvedURL := by
    have hlist : trimSpace s.webhook.url.toList = trimSpace c.webhook.url.toList := by
      have := congrArg String.toList hurl
      simpa [trim] using this
    unfold WebhookConfig.resolvedURL WebhookConfig.withToken
    dsimp only
    rw [hlist]
  have hcarries : ∀ w : WebhookConfig, (w.withToken secret).carriesCredential = true := by
    intro w
    unfold WebhookConfig.carriesCredential WebhookConfig.withToken
    simp [hsecret]
  obtain ⟨hskip_s, hallow_s⟩ := withToken_flags s.webhook secret
  obtain ⟨hskip_c, _⟩ := withToken_flags c.webhook secret
  have hverifies : s.Verifies ↔ s.webhook.insecureSkipVerify = false := by
    unfold SinkConfig.Verifies
    rw [if_pos hs]
  have hplace : ∀ u, (c.webhook.withToken secret).validate std = .ok u →
      s.place std lower secret = some (u.host, none) ∧
        (s.Encrypts std secret ↔ u.lowerScheme = "https" ∨
          ¬ (s.webhook.allowPlaintextHTTP = true ∨ isLoopback u.host = true)) := by
    intro u hu
    obtain ⟨hparse, hiff⟩ := validate_eq_ok_iff hresolved (hcarries s.webhook) hu
    rw [hallow_s] at hiff
    constructor
    · unfold SinkConfig.place
      rw [build_webhook hs hsecret]
      dsimp only
      rw [hparse]
    · unfold SinkConfig.Encrypts
      rw [build_webhook hs hsecret]
      dsimp only
      constructor
      · intro hall
        by_cases hscheme : u.lowerScheme = "https"
        · exact .inl hscheme
        · exact .inr fun hallow => hscheme (hall u (hiff.mpr fun _ => hallow))
      · intro hor u' hu'
        have hsame := validate_eq_ok_iff hresolved.symm (hcarries c.webhook) hu'
        rw [← hresolved] at hparse
        obtain rfl := Except.ok.inj (hsame.1.symm.trans hparse)
        rcases hor with hscheme | hrefused
        · exact hscheme
        · by_contra hscheme
          exact hrefused (hiff.mp hu' hscheme)
  unfold WebhookConfig.NoWeaker
  rw [hskip_s, hskip_c, hallow_s]
  constructor
  · intro hprotected o u hrequest hvalidate
    obtain ⟨_, hencrypts, hverified⟩ := hprotected _ o _ (build_webhook hc hsecret)
      (hands_webhook.mpr ⟨u, hvalidate, hrequest, rfl⟩)
    refine ⟨fun hscheme hinsecure => ?_, fun hscheme => ?_⟩
    · by_contra hsecure
      have := hverified (hverifies.mpr (by simpa using hsecure)) (by simp [hscheme])
      simp [hskip_c, hinsecure] at this
    · by_contra hrefused
      have := hencrypts ((hplace u hvalidate).2.mpr (.inr hrefused))
      simp [hscheme] at this
  · intro hweaker sink o ch hbuild hhands
    obtain rfl := Option.some.inj ((build_webhook hc hsecret).symm.trans hbuild)
    obtain ⟨u, hvalidate, hrequest, rfl⟩ := hands_webhook.mp hhands
    obtain ⟨hinsecure, hplain⟩ := hweaker o u hrequest hvalidate
    obtain ⟨hplace, hencrypts⟩ := hplace u hvalidate
    refine ⟨hplace, fun henc => ?_, fun hver htls => ?_⟩
    · rcases hencrypts.mp henc with hscheme | hrefused
      · simpa using hscheme
      · by_contra hscheme
        exact hrefused (hplain (by simpa using hscheme))
    · have hsecure := hverifies.mp hver
      have hno : ¬ c.webhook.insecureSkipVerify = true := by
        intro hskip
        have := hinsecure (by simpa using htls) hskip
        rw [hsecure] at this
        cases this
      show (!(c.webhook.withToken secret).insecureSkipVerify) = true
      rw [hskip_c]
      simpa using hno

end Webhook

end SnmpLens.Notify
