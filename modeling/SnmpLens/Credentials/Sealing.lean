import SnmpLens.Credentials.Custody
import SnmpLens.Credentials.Fields
import SnmpLens.Lib.Machine

/-!
# Settings on disk and in memory

`utils/crypto.js` and the store around it, `settingsStore.js`: what a start makes of the
blob in localStorage, and what a save writes there. A run is any sequence of starts and
saves, each with the answers the credential store gives it.

What is said about a run is said of `promised`, which the program does not have: under each
key the plaintext that was sealed last, as long as its owner stays and it is not edited.
-/

namespace SnmpLens.Credentials

open Utf8

variable {κ : Type}

/-- `credentialState`. -/
inductive Status where
  | ok
  | locked
  | nostore
deriving DecidableEq, Repr

/-- What an earlier version left in localStorage beside the settings. -/
inductive Legacy (κ : Type) where
  /-- It is no JWK, or has no `k`. -/
  | unparsable
  /-- Its `k` is no key. -/
  | invalid
  | key (k : κ)
deriving DecidableEq, Repr

/-- A running program. -/
structure Session where
  memory : Settings
  status : Status
deriving DecidableEq

/-- An installation: what is kept between two starts, and the program while it runs. -/
structure Installation (κ : Type) where
  custody : Custody κ := {}
  /-- `_snmplens_ek`. -/
  legacy : Option (Legacy κ) := none
  /-- `settings`. -/
  blob : Option Settings := none
  session : Option Session := none
  promised : Key → Option Octets := fun _ => none

/-- How the calls of a start are answered. -/
structure Startup (κ : Type) where
  /-- `SettingsKeyStatus`. -/
  status : Access κ
  /-- `SettingsAdoptKey`. -/
  adopt : Access κ
  backFails : Bool := false
  /-- `SettingsOpen` of the first value, to see that the adopted key is the right one. -/
  check : Access κ
  /-- `SettingsOpen` of the settings. -/
  opening : Access κ

/-! ## The parts -/

def blankSealed (s : Settings) : Settings :=
  s.fill (s.values.map fun v => if isEncrypted v then [] else v)

/-- `stored.get(key)`, where the later of two fields under one key has replaced the other. -/
def storedUnder (previous : Settings) (k : Key) : Option Octets :=
  (previous.fields.reverse.find? fun x => x.1.text == k.text).map Prod.snd

def carryForward (s : Settings) (previous : Option Settings) : Settings :=
  s.fill (s.keys.map fun k => (previous.bind fun p => storedUnder p k).getD [])

/-- `refreshStatus`: what it finds wrong. -/
def refreshStatus (a : Access κ) : Option Status :=
  if a.present = false then some .nostore
  else if a.getFails then some .locked
  else none

/-- What `encryptSettings` returns once the values are sealed. -/
def Settings.withSealed (s : Settings) (sealed : List Octets) : Settings :=
  s.fill (List.zipWith (fun v w => if v ≠ [] ∨ w ≠ [] then w else v) s.values sealed)

section

variable [DecidableEq κ] (g : Aead κ)

def encryptSettings (status : Status) (a : Access κ) (nonces : Option (Nat → Nonce))
    (s : Settings) (previous : Option Settings) (c : Custody κ) : Option Settings × Custody κ :=
  if status ≠ .ok then (some (carryForward s previous), c)
  else
    match settingsSeal g a nonces s.values c with
    | (none, c) => (none, c)
    | (some sealed, c) => (some (s.withSealed sealed), c)

/-- `migrateLegacyKey`, of the values of the settings. -/
def migrateLegacyKey (e : Startup κ) (values : List Octets) (legacy : Option (Legacy κ))
    (c : Custody κ) : Option (Legacy κ) × Custody κ :=
  match legacy with
  | none => (none, c)
  | some .unparsable => (none, c)
  | some .invalid => (legacy, c)
  | some (.key k) =>
      match settingsAdoptKey e.adopt e.backFails k c with
      | (false, c) => (legacy, c)
      | (true, c) =>
          match values.filter isEncrypted with
          | [] => (none, c)
          | v :: _ =>
              match settingsOpen g e.check [v] c with
              | (none, c) => (legacy, c)
              | (some _, c) => (none, c)

/-- The rest of `decryptSettings`, once the status is known and the legacy key is dealt with. -/
def decryptSettings (e : Startup κ) (s : Settings) (c : Custody κ) : Session × Custody κ :=
  if s.values.any isEncrypted = false then
    ({ memory := s, status := (refreshStatus e.status).getD .ok }, c)
  else
    match refreshStatus e.status with
    | some status => ({ memory := blankSealed s, status }, c)
    | none =>
        match settingsOpen g e.opening s.values c with
        | (some opened, c) => ({ memory := s.fill opened, status := .ok }, c)
        | (none, c) => ({ memory := blankSealed s, status := .locked }, c)

/-- The settings of a profile that has none. -/
def defaults : Settings where
  community := octets "public"
  authPass := []
  privPass := []
  overrides := []
  profiles := []
  rest := []
  addrs := List.nodup_nil
  ids := List.nodup_nil

/-! ## Starts and saves -/

/-- The program is started: the process remembers no key. -/
def Installation.start (e : Startup κ) (s : Installation κ) : Installation κ :=
  let c : Custody κ := { s.custody with cache := none }
  match s.blob with
  | none =>
      let (legacy, c) := migrateLegacyKey g e [] s.legacy c
      { s with
        custody := c
        legacy := legacy
        session := some { memory := defaults, status := (refreshStatus e.status).getD .ok } }
  | some raw =>
      let (legacy, c) := migrateLegacyKey g e raw.values s.legacy c
      let (session, c) := decryptSettings g e raw c
      { s with custody := c, legacy := legacy, session := some session }

/-- What is under a key. -/
def Settings.at_ (s : Settings) (k : Key) : Option Octets :=
  (s.fields.find? fun x => x.1 = k).map Prod.snd

/-- What is promised after a save: what has just been sealed, or what still is as it was. -/
def promise (promised : Key → Option Octets) (memory saved : Settings) (sealedNow : Bool) :
    Key → Option Octets := fun k =>
  match saved.at_ k with
  | none => none
  | some v =>
      if sealedNow then (if v = [] then none else some v)
      else if memory.at_ k = some v then promised k
      else none

/-- `settingsStore.save`. -/
def Installation.save (settings : Settings) (a : Access κ) (nonces : Option (Nat → Nonce))
    (s : Installation κ) : Option (Installation κ) :=
  s.session.map fun m =>
    let (written, c) := encryptSettings g m.status a nonces settings s.blob s.custody
    { s with
      custody := c
      blob := written.or s.blob
      session := some { m with memory := settings }
      promised := promise s.promised m.memory settings
        (decide (m.status = .ok) && written.isSome) }

inductive Move (κ : Type) where
  | start (e : Startup κ)
  | save (settings : Settings) (a : Access κ) (nonces : Option (Nat → Nonce))

def step (s : Installation κ) : Move κ → Option (Installation κ)
  | .start e => some (s.start g e)
  | .save settings a nonces => s.save g settings a nonces

end

/-! ## What is said of a run -/

/-- The credential store opens at a start: it is there and can be read, and so it is when
the settings are opened. -/
structure Startup.Opens (e : Startup κ) : Prop where
  usable : refreshStatus e.status = none
  present : e.opening.present = true
  get : e.opening.getFails = false

/-- A value that shows nothing: it is empty, or sealed under a key that is kept. -/
def Installation.Hides (g : Aead κ) (s : Installation κ) (v : Octets) : Prop :=
  v = [] ∨ ∃ k n p, v = sealed g k n p ∧
    (s.custody.store = some k ∨ s.legacy = some (.key k))

/-- A step that does not do what the properties do not survive: no credential that is saved
reads like a sealed one, and where a legacy key waits for an empty credential store, a start
that comes to open the settings has handed it over. -/
def Careful (s : Installation κ) : Move κ → Prop
  | .save settings _ _ =>
      ∀ m ∈ s.session, m.status = .ok →
        ∀ v ∈ settings.values, isEncrypted v = true → looksSealed v = false
  | .start e =>
      (∃ k, s.legacy = some (.key k)) → s.custody.store = none → refreshStatus e.status = none →
        (e.adopt.present = true ∧ e.adopt.getFails = false ∧ e.adopt.setFails = false) ∨
          e.opening.present = false ∨ e.opening.getFails = true

/-- **Credentials survive and are never in clear.** -/
structure Safe [DecidableEq κ] (g : Aead κ) (s : Installation κ) : Prop where
  hidden : ∀ b ∈ s.blob, ∀ v ∈ b.values, s.Hides g v
  survives : ∀ e : Startup κ, e.Opens → Careful s (.start e) →
    ∃ m ∈ (s.start g e).session, ∀ k p, s.promised k = some p → (k, p) ∈ m.memory.fields

/-- A profile nothing was ever saved in, or one as an earlier version left it: its
credentials are sealed under the legacy key, which is still in localStorage. -/
structure Untouched (g : Aead κ) (s : Installation κ) : Prop where
  session : s.session = none
  custody : s.custody = {}
  blob : ∀ b ∈ s.blob, ∀ v ∈ b.values, v = [] ∨
    ∃ k n p, s.legacy = some (.key k) ∧ v = sealed g k n p
  promised : ∀ key p, s.promised key = some p → ∃ b ∈ s.blob, ∃ k n,
    s.legacy = some (.key k) ∧ (key, sealed g k n p) ∈ b.fields

end SnmpLens.Credentials
