import SnmpLens.Updater.Manifest

/-!
# Only an authentic, newer release is installed

What is remembered is a later version than the one that runs, whatever was answered when it was
found; what is applied has passed the checks of `Manifest.lean`, whatever was answered since.
-/

namespace SnmpLens.Updater

open Utf8 Strings

/-! ## What is remembered -/

/-- A later version than the one that runs, and the asset for this platform. -/
structure Remembers (s : Service) : Prop where
  newer : ∀ p, s.pending = some p → isNewer s.lib s.version p.version = true
  asset : ∀ p, s.pending = some p → p.assetName = s.platform.target.1

theorem remembers_nothing {s : Service} (h : s.pending = none) : Remembers s := by
  constructor
  · intro p hp
    rw [h] at hp
    cases hp
  · intro p hp
    rw [h] at hp
    cases hp

theorem call_same (s : Service) (c : Call) :
    (s.call c).lib = s.lib ∧ (s.call c).platform = s.platform ∧ (s.call c).keys = s.keys ∧
      (s.call c).version = s.version := by
  cases c with
  | downloadAndApply _ => exact ⟨rfl, rfl, rfl, rfl⟩
  | checkForUpdate answer =>
      change (s.checkForUpdate answer).2.lib = s.lib ∧ (s.checkForUpdate answer).2.platform = s.platform ∧
        (s.checkForUpdate answer).2.keys = s.keys ∧ (s.checkForUpdate answer).2.version = s.version
      unfold Service.checkForUpdate
      dsimp only
      split
      · exact ⟨rfl, rfl, rfl, rfl⟩
      · split
        · exact ⟨rfl, rfl, rfl, rfl⟩
        · split
          · split <;> exact ⟨rfl, rfl, rfl, rfl⟩
          · exact ⟨rfl, rfl, rfl, rfl⟩

theorem pending_checkForUpdate (s : Service) (answer : Answer) :
    (s.checkForUpdate answer).2.pending = s.pending ∨
      ∃ rel, (s.checkForUpdate answer).2.pending = some (s.found rel) ∧
        isNewer s.lib s.version rel.tagName = true := by
  unfold Service.checkForUpdate
  dsimp only
  split
  · exact .inl rfl
  · split
    · exact .inl rfl
    · rename_i rel _
      split
      · rename_i hnewer
        split
        · exact .inl rfl
        · exact .inr ⟨rel, rfl, hnewer⟩
      · exact .inl rfl

theorem Remembers.call {s : Service} (h : Remembers s) (c : Call) : Remembers (s.call c) := by
  obtain ⟨hlib, hplatform, _, hversion⟩ := call_same s c
  cases c with
  | downloadAndApply _ => exact h
  | checkForUpdate answer =>
      rcases pending_checkForUpdate s answer with hsame | ⟨rel, hfound, hnewer⟩
      · constructor
        · intro p hp
          rw [hlib, hversion]
          exact h.newer p (hsame ▸ hp)
        · intro p hp
          rw [hplatform]
          exact h.asset p (hsame ▸ hp)
      · have hpending : ∀ p, (s.call (.checkForUpdate answer)).pending = some p → s.found rel = p :=
          fun p hp => Option.some.inj (hfound.symm.trans hp)
        constructor
        · intro p hp
          obtain rfl := hpending p hp
          rw [hlib, hversion]
          exact hnewer
        · intro p hp
          obtain rfl := hpending p hp
          rw [hplatform]
          rfl

/-- **Every call keeps it**, in any sequence. -/
theorem Remembers.calls {s : Service} (h : Remembers s) (calls : List Call) :
    Remembers (calls.foldl Service.call s) := by
  induction calls generalizing s with
  | nil => exact h
  | cons c calls ih => exact ih (h.call c)

theorem calls_same (s : Service) (calls : List Call) :
    (calls.foldl Service.call s).lib = s.lib ∧ (calls.foldl Service.call s).platform = s.platform ∧
      (calls.foldl Service.call s).keys = s.keys ∧
      (calls.foldl Service.call s).version = s.version := by
  induction calls generalizing s with
  | nil => exact ⟨rfl, rfl, rfl, rfl⟩
  | cons c calls ih =>
      obtain ⟨hlib, hplatform, hkeys, hversion⟩ := ih (s.call c)
      obtain ⟨hlib', hplatform', hkeys', hversion'⟩ := call_same s c
      exact ⟨hlib.trans hlib', hplatform.trans hplatform', hkeys.trans hkeys',
        hversion.trans hversion'⟩

/-! ## What is applied -/

theorem target_plain (lib : Library) (p : Platform) :
    p.target.1 ≠ octets "." ∧ p.target.1 ≠ [(p.paths lib).separator] := by
  cases p with
  | linux managed => cases managed <;> exact ⟨by decide, show _ ≠ [chr '/'] by decide⟩
  | windows installed => cases installed <;> exact ⟨by decide, show _ ≠ [chr '\\'] by decide⟩
  | darwin => exact ⟨by decide, show _ ≠ [chr '/'] by decide⟩

/-- The tag is a semantic version, a `v` in front of it aside, and a later one than `running`. -/
def Later (lib : Library) (running tag : Octets) : Prop :=
  ∃ mark text, mark ∈ marks ∧ tag = mark ++ text ∧ lib.isValid (normalizeVersion running) = true ∧
    lib.isValid (chr 'v' :: text) = true ∧
    lib.compare (normalizeVersion running) (chr 'v' :: text) < 0

theorem later_of_isNewer {lib : Library} {running tag : Octets} (h : isNewer lib running tag = true)
    (htrimmed : Trimmed tag) (hne : tag ≠ []) : Later lib running tag := by
  obtain ⟨mark, text, hmark, htag, hnormal⟩ := normalizeVersion_eq htrimmed hne
  unfold isNewer at h
  dsimp only at h
  rw [hnormal] at h
  split at h
  · cases h
  · rename_i hvalid
    rw [Bool.or_eq_true, not_or, Bool.not_eq_true', Bool.not_eq_true', Bool.not_eq_false,
      Bool.not_eq_false] at hvalid
    exact ⟨mark, text, hmark, htag, hvalid.1, hvalid.2, of_decide_eq_true h⟩

/-- The file is the asset for this platform of the release that is pending, as a manifest says
that an embedded key has signed; and the release is a later version than the one that runs. -/
structure Authentic (s : Service) (p : Pending) (manifest file : Octets) : Prop where
  signed : Signed s.lib s.keys manifest
  names : Names manifest p.version
  later : Later s.lib s.version p.version
  listed : ∃ before line after sum, scanLines manifest = before ++ line :: after ∧
    (∀ l ∈ before, entry s.lib s.platform s.platform.target.1 l = none) ∧
    Lists s.lib s.platform s.platform.target.1 line sum ∧
    sum.map Fold.lower = Hex.encode (s.lib.sha256 file)

theorem verifiedChecksum_ok {lib : Library} {p : Platform} {keys : List Octets}
    {sigURL asset version sum : Octets} {m sig : Answer} (henforced : signatureEnforced keys = true)
    (h : verifiedChecksum lib p keys sigURL asset version m sig = .ok sum) :
    ∃ manifest, Signed lib keys manifest ∧ checkManifestVersion manifest version = .ok () ∧
      parseChecksum lib p manifest asset = .ok sum := by
  unfold verifiedChecksum at h
  split at h
  · cases h
  · rename_i manifest _
    rw [if_pos henforced] at h
    split at h
    · cases h
    · split at h
      · cases h
      · rename_i sigBytes _
        cases hverify : verifySignature lib keys manifest sigBytes with
        | error err =>
            rw [hverify] at h
            cases h
        | ok u =>
            rw [hverify] at h
            dsimp only at h
            cases hversion : checkManifestVersion manifest version with
            | error err =>
                rw [hversion] at h
                cases h
            | ok u =>
                rw [hversion] at h
                exact ⟨manifest, signed_of_verifySignature hverify, hversion, h⟩

/-- What is applied is the file whose sum has been verified. -/
theorem applied_cases {s : Service} {a : Answers} {mode : ApplyMode} {file : Octets}
    (h : s.downloadAndApply a = .applied mode file) :
    ∃ p sum, s.pending = some p ∧
      verifiedChecksum s.lib s.platform s.keys p.checksumSigURL p.assetName p.version
        a.manifest a.sig = .ok sum ∧
      Fold.equalFold sum (Hex.encode (s.lib.sha256 file)) = true := by
  unfold Service.downloadAndApply at h
  split at h
  · cases h
  · rename_i p hp
    split at h
    · split at h <;> cases h
    · split at h
      · cases h
      · split at h
        · cases h
        · rename_i wantSum hsum
          split at h
          · cases h
          · rename_i got gotSum hdownload
            split at h
            · rename_i hfold
              injection h with _ hfile
              subst hfile
              refine ⟨p, wantSum, hp, hsum, ?_⟩
              -- the sum is taken of what is written to the file
              unfold download at hdownload
              split at hdownload
              · cases hdownload
              · cases hdownload
              · obtain ⟨rfl, rfl⟩ := Prod.mk.inj (Except.ok.inj hdownload)
                exact hfold
            · cases h

/-- A sum in hexadecimal has none of the letters something else folds to. -/
theorem lower_sum {lib : Library} {sum file : Octets}
    (h : Fold.equalFold sum (Hex.encode (lib.sha256 file)) = true) :
    sum.map Fold.lower = Hex.encode (lib.sha256 file) := by
  have hdigit : ∀ b ∈ Hex.encode (lib.sha256 file), 48 ≤ b.toNat ∧ b.toNat ≤ 102 :=
    fun b hb => Hex.mem_encode hb
  refine Fold.lower_of_equalFold (fun b hb => ?_) (fun b hb hcase => ?_) (fun hk => ?_) (fun hs => ?_) h
  · have := hdigit b hb
    omega
  · exact Hex.lower_of_mem_encode hb hcase
  · exact absurd (hdigit _ hk).2 (by decide)
  · exact absurd (hdigit _ hs).2 (by decide)

/-- **Only an authentic, newer release is installed**, whatever is checked and applied in
whatever order, and whatever the network returns. -/
theorem only_authentic {s : Service} (hfresh : s.pending = none)
    (husable : ∃ key ∈ s.keys, (publicKey key).isSome) (calls : List Call) {a : Answers}
    {mode : ApplyMode} {file : Octets}
    (h : (calls.foldl Service.call s).downloadAndApply a = .applied mode file) :
    ∃ p manifest, (calls.foldl Service.call s).pending = some p ∧ Authentic s p manifest file := by
  have hrem := (remembers_nothing hfresh).calls calls
  obtain ⟨hlib, hplatform, hkeys, hversion⟩ := calls_same s calls
  obtain ⟨p, sum, hp, hsum, hfold⟩ := applied_cases h
  have hnewer := hrem.newer p hp
  have hasset := hrem.asset p hp
  rw [hlib, hversion] at hnewer
  rw [hplatform] at hasset
  rw [hlib, hplatform, hkeys, hasset] at hsum
  rw [hlib] at hfold
  obtain ⟨manifest, hsigned, hcheck, hparse⟩ :=
    verifiedChecksum_ok (signatureEnforced_of_usable husable) hsum
  obtain ⟨hnames, htrimmed, hne⟩ := names_of_checkManifestVersion hcheck
  obtain ⟨before, line, after, hlines, hbefore, hentry⟩ := findEntry_ok hparse
  obtain ⟨hdot, hsep⟩ := target_plain s.lib s.platform
  exact ⟨p, manifest, hp, hsigned, hnames, later_of_isNewer hnewer htrimmed hne, before, line, after,
    sum, hlines, hbefore, lists_of_entry hentry hdot hsep, lower_sum hfold⟩

/-! ## An update -/

/-- A library in which a key signs with itself and a file is its own sum. -/
def toyLibrary : Library where
  decodeRelease := fun body => .ok
    { tagName := octets "v2.0.0", body := body, htmlURL := [], publishedAt := []
      assets := [⟨octets "SnmpLens-linux-amd64", octets "a"⟩, ⟨checksumsAsset, octets "c"⟩,
        ⟨checksumsAsset ++ octets ".sig", octets "s"⟩] }
  parseURL := fun _ => none
  toLower := id
  quote := id
  isValid := fun v => v = octets "v1.0.0" || v = octets "v2.0.0"
  compare := fun v w => if v = octets "v1.0.0" ∧ w = octets "v2.0.0" then -1 else 0
  verify := fun pub _ sig => pub == sig
  sha256 := id
  volumeName := fun _ => 0

def portable : Service where
  lib := toyLibrary
  platform := .linux false
  keys := updaterPublicKeys
  version := octets "v1.0.0"

/-- The manifest of the release, signed with the second of the keys. -/
def update : Answers where
  manifest := .ok (octets "version v2.0.0\n61  SnmpLens-windows-amd64.exe\n6D *bin/SnmpLens-linux-amd64\n")
  sig := .ok (octets "svOWbkIuFQTiebt+DKzaohFFdeANV8NjcdX3cQiybPw=")
  asset := .ok (octets "m")

theorem only_authentic_update :
    ∃ p manifest, (portable.call (.checkForUpdate (.ok []))).pending = some p ∧
      Authentic portable p manifest (octets "m") :=
  only_authentic (s := portable) rfl
    ⟨octets "svOWbkIuFQTiebt+DKzaohFFdeANV8NjcdX3cQiybPw=", List.mem_cons_of_mem _ (List.mem_singleton_self _),
      by simp only [octets_eq_stored]; decide⟩
    [.checkForUpdate (.ok [])] (a := update)
    (show (portable.call (.checkForUpdate (.ok []))).downloadAndApply update
      = .applied .replace (octets "m") by
        simp only [update, octets_eq_stored]
        decide)

end SnmpLens.Updater
