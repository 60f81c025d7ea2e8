import SnmpLens.Lib.Base64

/-!
# Custody of the key

`internal/app/settings.go`, one call at a time: the key the renderer's credentials are
sealed with, kept in the credential store and cached by the process, and what is sealed and
opened with it. A key is 32 octets; the store keeps its base64, which is the key again.

AES-GCM is passed in. All that is asked of it is that it opens what it has sealed.
-/

namespace SnmpLens.Credentials

open Utf8

/-- The number `rand.Read` fills in front of a ciphertext. -/
structure Nonce where
  octets : Octets
  size : octets.length = 12

/-- An AEAD whose keys are `κ`. -/
structure Aead (κ : Type) where
  /-- `gcm.Seal`, without the nonce it is put behind. -/
  seal_ : κ → Octets → Octets → Octets
  /-- `gcm.Open`. -/
  open_ : κ → Octets → Octets → Option Octets
  /-- It opens what it has sealed under the same key. -/
  opens : ∀ k n p, open_ k n (seal_ k n p) = some p

/-- The key as the credential store has it, and as the process remembers it. -/
structure Custody (κ : Type) where
  store : Option κ := none
  cache : Option κ := none
deriving DecidableEq, Repr

/-- How the credential store answers a call. -/
structure Access (κ : Type) where
  /-- `a.secrets != nil`. -/
  present : Bool := true
  /-- `Get` fails, and not because there is no key. -/
  getFails : Bool := false
  setFails : Bool := false
  /-- `rand.Read`, where a key is made. -/
  fresh : κ

variable {κ : Type}

def settingsKey (a : Access κ) (c : Custody κ) : Option κ × Custody κ :=
  if a.present = false then (none, c)
  else
    match c.cache with
    | some k => (some k, c)
    | none =>
        if a.getFails then (none, c)
        else
          match c.store with
          | some k => (some k, { c with cache := some k })
          | none =>
              if a.setFails then (none, c)
              else (some a.fresh, { store := some a.fresh, cache := some a.fresh })

/-! ## Values -/

/-- `settingsPrefix`. -/
def prefix_ : Octets := Utf8.octets "enc:"

/-- `isEncrypted`, and `strings.HasPrefix(value, settingsPrefix)`. -/
def isEncrypted (value : Octets) : Bool := prefix_.isPrefixOf value

def looksSealed (value : Octets) : Bool :=
  match Base64.decode (value.drop prefix_.length) with
  | .ok raw => 12 + 16 ≤ raw.length
  | .error _ => false

section

variable (g : Aead κ)

/-- What a value becomes when it is sealed. -/
def sealed (k : κ) (n : Nonce) (p : Octets) : Octets :=
  prefix_ ++ Base64.text (n.octets ++ g.seal_ k n.octets p)

/-- One round of `SettingsSeal`. -/
def sealValue (k : κ) (n : Nonce) (value : Octets) : Octets :=
  if value = [] then value
  else if isEncrypted value && looksSealed value then value
  else sealed g k n value

/-- `SettingsSeal`; `nonces` is what `rand.Read` fills in, round by round, where it does. -/
def settingsSeal (a : Access κ) (nonces : Option (Nat → Nonce)) (values : List Octets)
    (c : Custody κ) : Option (List Octets) × Custody κ :=
  match settingsKey a c with
  | (none, c) => (none, c)
  | (some k, c) =>
      (nonces.map fun nonces => values.zipIdx.map fun x => sealValue g k (nonces x.2) x.1, c)

/-- One round of `SettingsOpen`. -/
def openValue (k : κ) (value : Octets) : Option Octets :=
  if isEncrypted value then
    match Base64.decode (value.drop prefix_.length) with
    | .error _ => none
    | .ok raw =>
        if raw.length < 12 then none else g.open_ k (raw.take 12) (raw.drop 12)
  else some value

/-- `SettingsOpen`. The batch fails together. -/
def settingsOpen (a : Access κ) (values : List Octets) (c : Custody κ) :
    Option (List Octets) × Custody κ :=
  match settingsKey a c with
  | (none, c) => (none, c)
  | (some k, c) => (values.mapM (openValue g k), c)

end

/-- `SettingsAdoptKey`, of a key that is one; `backFails` is the read that checks the write. -/
def settingsAdoptKey [DecidableEq κ] (a : Access κ) (backFails : Bool) (key : κ)
    (c : Custody κ) : Bool × Custody κ :=
  if a.present = false then (false, c)
  else if a.getFails then (false, c)
  else
    match c.store with
    | some existing =>
        if existing = key then (true, { c with cache := some key }) else (false, c)
    | none =>
        if a.setFails then (false, c)
        else if backFails then (false, { c with store := some key })
        else (true, { store := some key, cache := some key })

/-! ## What each call does -/

/-- A call that may make a key: it leaves the key that is stored, or stores one where there
is none, and never caches another. -/
structure Keeps (c c' : Custody κ) : Prop where
  store : ∀ k, c.store = some k → c'.store = some k
  cache : (∀ k, c.cache = some k → c.store = some k) → ∀ k, c'.cache = some k → c'.store = some k

theorem Keeps.refl (c : Custody κ) : Keeps c c := ⟨fun _ h => h, fun h => h⟩

theorem Keeps.trans {c c' c'' : Custody κ} (h : Keeps c c') (h' : Keeps c' c'') : Keeps c c'' :=
  ⟨fun k hk => h'.store k (h.store k hk), fun hc => h'.cache (h.cache hc)⟩

theorem settingsKey_keeps (a : Access κ) (c : Custody κ) : Keeps c (settingsKey a c).2 := by
  unfold settingsKey
  by_cases hpresent : a.present = false
  · rw [if_pos hpresent]
    exact .refl c
  · rw [if_neg hpresent]
    cases hcache : c.cache with
    | some k => exact .refl c
    | none =>
        dsimp only
        by_cases hget : a.getFails = true
        · rw [if_pos hget]
          exact .refl c
        · rw [if_neg hget]
          cases hstore : c.store with
          | some k => exact ⟨fun _ h => hstore.symm.trans h, fun _ _ hk => hk⟩
          | none =>
              dsimp only
              by_cases hset : a.setFails = true
              · rw [if_pos hset]
                exact .refl c
              · rw [if_neg hset]
                refine ⟨fun k hk => ?_, fun _ k hk => hk⟩
                rw [hstore] at hk
                cases hk

theorem settingsKey_stored {a : Access κ} {c : Custody κ} {k : κ}
    (hcache : ∀ k, c.cache = some k → c.store = some k) (h : (settingsKey a c).1 = some k) :
    (settingsKey a c).2.store = some k := by
  unfold settingsKey at h ⊢
  by_cases hpresent : a.present = false
  · rw [if_pos hpresent] at h
    cases h
  · rw [if_neg hpresent] at h ⊢
    cases hc : c.cache with
    | some k' =>
        rw [hc] at h
        obtain rfl := Option.some.inj h
        exact hcache _ hc
    | none =>
        rw [hc] at h
        dsimp only at h ⊢
        by_cases hget : a.getFails = true
        · rw [if_pos hget] at h
          cases h
        · rw [if_neg hget] at h ⊢
          cases hstore : c.store with
          | some k' =>
              rw [hstore] at h
              obtain rfl := Option.some.inj h
              rfl
          | none =>
              rw [hstore] at h
              dsimp only at h ⊢
              by_cases hset : a.setFails = true
              · rw [if_pos hset] at h
                cases h
              · rw [if_neg hset] at h ⊢
                obtain rfl := Option.some.inj h
                rfl

/-- A store that has a key, can be read and is there answers with it. -/
theorem settingsKey_answers {a : Access κ} {c : Custody κ} {k : κ}
    (hcache : ∀ k, c.cache = some k → c.store = some k) (hpresent : a.present = true)
    (hget : a.getFails = false) (hstore : c.store = some k) : (settingsKey a c).1 = some k := by
  unfold settingsKey
  rw [if_neg (by simp [hpresent])]
  cases hc : c.cache with
  | some k' =>
      have := hcache _ hc
      rw [hstore] at this
      exact this.symm
  | none =>
      dsimp only
      rw [if_neg (by simp [hget]), hstore]

theorem settingsAdoptKey_keeps [DecidableEq κ] (a : Access κ) (backFails : Bool) (key : κ)
    (c : Custody κ) : Keeps c (settingsAdoptKey a backFails key c).2 := by
  unfold settingsAdoptKey
  by_cases hpresent : a.present = false
  · rw [if_pos hpresent]
    exact .refl c
  · rw [if_neg hpresent]
    by_cases hget : a.getFails = true
    · rw [if_pos hget]
      exact .refl c
    · rw [if_neg hget]
      cases hstore : c.store with
      | some existing =>
          dsimp only
          by_cases heq : existing = key
          · rw [if_pos heq]
            refine ⟨fun _ h => hstore.symm.trans h, fun _ k hk => ?_⟩
            obtain rfl := Option.some.inj hk
            exact congrArg some heq
          · rw [if_neg heq]
            exact .refl c
      | none =>
          have hnone : ∀ k, c.store ≠ some k := fun k hk => by rw [hstore] at hk; cases hk
          dsimp only
          by_cases hset : a.setFails = true
          · rw [if_pos hset]
            exact .refl c
          · rw [if_neg hset]
            cases backFails with
            | true =>
                refine ⟨fun k hk => absurd hk (hnone k), fun hc k hk => ?_⟩
                exact absurd (hc k hk) (hnone k)
            | false => exact ⟨fun k hk => absurd hk (hnone k), fun _ k hk => hk⟩

/-! ## What was sealed opens -/

theorem isEncrypted_sealed (g : Aead κ) (k : κ) (n : Nonce) (p : Octets) :
    isEncrypted (sealed g k n p) = true := by
  unfold isEncrypted sealed
  rw [List.isPrefixOf_iff_prefix]
  exact List.prefix_append _ _

theorem sealed_ne_nil (g : Aead κ) (k : κ) (n : Nonce) (p : Octets) : sealed g k n p ≠ [] := by
  intro h
  have := isEncrypted_sealed g k n p
  rw [h] at this
  cases this

/-- **What was sealed under a key is opened by it.** -/
theorem openValue_sealed (g : Aead κ) (k : κ) (n : Nonce) (p : Octets) :
    openValue g k (sealed g k n p) = some p := by
  unfold openValue
  rw [if_pos (isEncrypted_sealed g k n p)]
  unfold sealed
  rw [List.drop_left, Base64.decode_text]
  have hlen : (n.octets ++ g.seal_ k n.octets p).length = 12 + (g.seal_ k n.octets p).length := by
    rw [List.length_append, n.size]
  dsimp only
  rw [if_neg (by omega), ← n.size, List.take_left, List.drop_left]
  exact g.opens k n.octets p

/-- An AEAD that puts its key behind the text, to run something with. -/
def tagging : Aead UInt8 where
  seal_ k _ p := p ++ List.replicate 16 k
  open_ k _ c :=
    if c.drop (c.length - 16) = List.replicate 16 k then some (c.take (c.length - 16)) else none
  opens k n p := by simp

end SnmpLens.Credentials
