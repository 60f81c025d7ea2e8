import SnmpLens.Credentials.Sealing

/-!
# Credentials survive

One key has the custody of everything that is sealed on disk (`Under`): it is the one in the
credential store, or the legacy key that has not been handed over yet. Every start and every
save keeps it, unless a credential that is saved reads like a sealed one, which is then
written as it is and cannot be opened again, nor anything that is opened with it.
-/

namespace SnmpLens.Credentials

open Utf8 Machine

variable {κ : Type}

/-! ## Lists -/

theorem zipWith_zipIdx {α β γ : Type} {f : α → β → γ} {h : α × Nat → β} (l : List α) (n : Nat) :
    List.zipWith f l ((l.zipIdx n).map h) = (l.zipIdx n).map fun x => f x.1 (h x) := by
  induction l generalizing n with
  | nil => rfl
  | cons a l ih => rw [List.zipIdx_cons, List.map_cons, List.zipWith_cons_cons, ih, List.map_cons]

theorem mapM_eq_some {α β : Type} {f : α → Option β} {h : α → β} {l : List α}
    (hf : ∀ a ∈ l, f a = some (h a)) : l.mapM f = some (l.map h) := by
  induction l with
  | nil => rfl
  | cons a l ih =>
      rw [List.mapM_cons, hf a List.mem_cons_self,
        ih fun b hb => hf b (List.mem_cons_of_mem _ hb)]
      rfl

/-! ## Fields, filled -/

theorem fields_fill_map {s : Settings} (f : Slot → Octets) :
    (s.fill (s.fields.map f)).fields = s.fields.map fun x => (x.1, f x) := by
  rw [fields_fill (List.length_map _)]
  unfold Settings.keys
  rw [List.zip_map']

theorem values_map {s : Settings} {f : Octets → Octets} :
    s.values.map f = s.fields.map fun x => f x.2 := List.map_map

variable {v : Octets}

theorem at_eq_some {s : Settings} {k : Key} : s.at_ k = some v ↔ (k, v) ∈ s.fields := by
  unfold Settings.at_
  constructor
  · intro h
    obtain ⟨x, hx, rfl⟩ := Option.map_eq_some_iff.mp h
    have hk : x.1 = k := by simpa using List.find?_some hx
    rw [← hk]
    exact List.mem_of_find?_eq_some hx
  · intro h
    cases hfind : s.fields.find? fun x => x.1 = k with
    | none =>
        exact absurd (decide_eq_true rfl) (List.find?_eq_none.mp hfind _ h)
    | some x =>
        have hk : x.1 = k := by simpa using List.find?_some hfind
        have hmem := List.mem_of_find?_eq_some hfind
        have : (k, x.2) ∈ s.fields := by
          rw [← hk]
          exact hmem
        exact congrArg some (value_unique this h)

theorem storedUnder_eq {previous : Settings} {k : Key} (h : (k, v) ∈ previous.fields) :
    storedUnder previous k = some v := by
  unfold storedUnder
  cases hfind : previous.fields.reverse.find? fun x => x.1.text == k.text with
  | none =>
      exact absurd (beq_self_eq_true _) (List.find?_eq_none.mp hfind _ (List.mem_reverse.mpr h))
  | some x =>
      have htext : x.1.text = k.text := by simpa using List.find?_some hfind
      have hk := Key.text_inj htext
      have hmem := List.mem_reverse.mp (List.mem_of_find?_eq_some hfind)
      have : (k, x.2) ∈ previous.fields := by
        rw [← hk]
        exact hmem
      exact congrArg some (value_unique this h)

theorem storedUnder_mem {previous : Settings} {k : Key} (h : storedUnder previous k = some v) :
    v ∈ previous.values := by
  obtain ⟨x, hx, rfl⟩ := Option.map_eq_some_iff.mp h
  exact List.mem_map_of_mem (List.mem_reverse.mp (List.mem_of_find?_eq_some hx))

theorem mem_values {s : Settings} : v ∈ s.values ↔ ∃ k, (k, v) ∈ s.fields := by
  unfold Settings.values
  rw [List.mem_map]
  constructor
  · rintro ⟨x, hx, rfl⟩
    exact ⟨x.1, hx⟩
  · rintro ⟨k, h⟩
    exact ⟨_, h, rfl⟩

/-! ## Blanking, carrying forward, sealing, opening -/

theorem fields_blankSealed (s : Settings) :
    (blankSealed s).fields = s.fields.map fun x => (x.1, if isEncrypted x.2 then [] else x.2) := by
  unfold blankSealed
  rw [values_map, fields_fill_map]

theorem fields_carryForward (s : Settings) (previous : Option Settings) :
    (carryForward s previous).fields = s.fields.map fun x =>
      (x.1, (previous.bind fun p => storedUnder p x.1).getD []) := by
  unfold carryForward Settings.keys
  rw [List.map_map, fields_fill_map]
  rfl

theorem fields_sealed (g : Aead κ) (k : κ) (nonces : Nat → Nonce) (s : Settings) :
    (s.withSealed (s.values.zipIdx.map fun x => sealValue g k (nonces x.2) x.1)).fields =
      s.fields.zipIdx.map fun x => (x.1.1, sealValue g k (nonces x.2) x.1.2) := by
  have hlen : (List.zipWith (fun v w => if v ≠ [] ∨ w ≠ [] then w else v) s.values
      (s.values.zipIdx.map fun x => sealValue g k (nonces x.2) x.1)).length = s.fields.length := by
    rw [List.length_zipWith, List.length_map, List.length_zipIdx, length_values, Nat.min_self]
  have hset : ∀ (v : Octets) (n : Nonce),
      (if v ≠ [] ∨ sealValue g k n v ≠ [] then sealValue g k n v else v) = sealValue g k n v := by
    intro v n
    by_cases hv : v = []
    · rw [hv, show sealValue g k n [] = [] from rfl]
      exact if_neg (by simp)
    · exact if_pos (.inl hv)
  unfold Settings.withSealed
  rw [fields_fill hlen, zipWith_zipIdx]
  simp only [hset]
  unfold Settings.keys Settings.values
  rw [List.zipIdx_map, List.map_map, List.zip, List.zipWith_map_left, zipWith_zipIdx]
  rfl

/-! ## The invariant -/

/-- Nothing is sealed in it. -/
def Bare (blob : Option Settings) : Prop := ∀ b ∈ blob, ∀ v ∈ b.values, v = []

/-- `k` is the key everything on disk is sealed under: the stored one, or the legacy key that
waits for an empty store. -/
def Owned (k : κ) (store : Option κ) (legacy : Option (Legacy κ)) (blob : Option Settings) : Prop :=
  store = some k ∨ store = none ∧ (legacy = some (.key k) ∨ Bare blob)

/-- **What a start and a save keep.** -/
structure Under (g : Aead κ) (k : κ) (s : Installation κ) : Prop where
  owned : Owned k s.custody.store s.legacy s.blob
  /-- The process remembers the stored key. -/
  cache : ∀ j, s.custody.cache = some j → s.custody.store = some j
  blob : ∀ b ∈ s.blob, ∀ v ∈ b.values, v = [] ∨ ∃ n p, v = sealed g k n p
  promised : ∀ key p, s.promised key = some p → ∃ b ∈ s.blob, ∃ n, (key, sealed g k n p) ∈ b.fields
  /-- In memory a credential is open, or blank where nothing could be opened. -/
  memory : ∀ m ∈ s.session, ∀ key p, s.promised key = some p →
    (key, if m.status = .ok then p else []) ∈ m.memory.fields
  /-- Where the credentials are open their key is stored. -/
  ready : ∀ m ∈ s.session, m.status = .ok → s.custody.store = none → Bare s.blob

section

variable {g : Aead κ} {k : κ} {s t : Installation κ}

theorem Under.nothing_promised (h : Under g k s) (hbare : Bare s.blob) (key : Key) :
    s.promised key = none := by
  cases hp : s.promised key with
  | none => rfl
  | some p =>
      obtain ⟨b, hb, n, hmem⟩ := h.promised key p hp
      exact absurd (hbare b hb _ (mem_values.mpr ⟨key, hmem⟩)) (sealed_ne_nil g k n p)

theorem bare_sealed {blob : Option Settings} (hbare : Bare blob) (k : κ) :
    ∀ b ∈ blob, ∀ v ∈ b.values, v = [] ∨ ∃ n p, v = sealed g k n p :=
  fun b hb v hv => .inl (hbare b hb v hv)

theorem Under.hides (h : Under g k s) : ∀ b ∈ s.blob, ∀ v ∈ b.values, s.Hides g v := by
  intro b hb v hv
  rcases h.blob b hb v hv with hnil | ⟨n, p, hv'⟩
  · exact .inl hnil
  · rcases h.owned with hstore | ⟨_, hlegacy | hbare⟩
    · exact .inr ⟨k, n, p, hv', .inl hstore⟩
    · exact .inr ⟨k, n, p, hv', .inr hlegacy⟩
    · exact .inl (hbare b hb v hv)

theorem under_untouched [Inhabited κ] (h : Untouched g s) : ∃ k, Under g k s := by
  have hnone : ∀ m, m ∉ s.session := by
    intro m hm
    rw [h.session] at hm
    cases hm
  -- the legacy key where there is one, and any where nothing is sealed
  have hkey : ∀ k, (∀ b ∈ s.blob, ∀ v ∈ b.values, v = [] ∨ ∃ n p, v = sealed g k n p) →
      (s.legacy = some (.key k) ∨ Bare s.blob) →
      (∀ key p, s.promised key = some p → ∃ b ∈ s.blob, ∃ n, (key, sealed g k n p) ∈ b.fields) →
      Under g k s := fun k hblob hlegacy hpromised =>
    { owned := .inr ⟨by rw [h.custody], hlegacy⟩
      cache := fun j hj => by rw [h.custody] at hj; cases hj
      blob := hblob
      promised := hpromised
      memory := fun m hm => absurd hm (hnone m)
      ready := fun m hm => absurd hm (hnone m) }
  by_cases hlegacy : ∃ k, s.legacy = some (.key k)
  · obtain ⟨k, hk⟩ := hlegacy
    have hsame : ∀ {j}, s.legacy = some (.key j) → j = k := by
      intro j hj
      rw [hk] at hj
      cases hj
      rfl
    refine ⟨k, hkey k (fun b hb v hv => ?_) (.inl hk) fun key p hp => ?_⟩
    · rcases h.blob b hb v hv with hnil | ⟨j, n, p, hj, hv'⟩
      · exact .inl hnil
      · rw [hsame hj] at hv'
        exact .inr ⟨n, p, hv'⟩
    · obtain ⟨b, hb, j, n, hj, hmem⟩ := h.promised key p hp
      rw [hsame hj] at hmem
      exact ⟨b, hb, n, hmem⟩
  · have hbare : Bare s.blob := fun b hb v hv => by
      rcases h.blob b hb v hv with hnil | ⟨k, _, _, hk, _⟩
      · exact hnil
      · exact absurd ⟨k, hk⟩ hlegacy
    refine ⟨default, hkey default (bare_sealed hbare default) (.inr hbare) fun key p hp => ?_⟩
    obtain ⟨_, _, k, _, hk, _⟩ := h.promised key p hp
    exact absurd ⟨k, hk⟩ hlegacy

/-- With nothing sealed and nothing promised any key has the custody. -/
theorem under_bare {t : Installation κ} (hbare : Bare t.blob)
    (hcache : ∀ j, t.custody.cache = some j → t.custody.store = some j)
    (hpromised : ∀ key, t.promised key = none) (k : κ) : ∃ j, Under g j t := by
  have hnone : ∀ {key p}, t.promised key = some p → False := fun {key p} hp => by
    rw [hpromised key] at hp
    cases hp
  refine ⟨t.custody.store.getD k, ?_, hcache, bare_sealed hbare _, fun _ _ hp => (hnone hp).elim,
    fun _ _ _ _ hp => (hnone hp).elim, fun _ _ _ _ => hbare⟩
  cases hstore : t.custody.store with
  | some j => exact .inl rfl
  | none => exact .inr ⟨rfl, .inr hbare⟩

/-! ## A save -/

theorem promise_some {promised : Key → Option Octets} {memory saved : Settings} {sealedNow : Bool}
    {key : Key} {p : Octets} (h : promise promised memory saved sealedNow key = some p) :
    ∃ v, (key, v) ∈ saved.fields ∧
      (sealedNow = true → v ≠ [] ∧ p = v) ∧
        (sealedNow = false → (key, v) ∈ memory.fields ∧ promised key = some p) := by
  unfold promise at h
  cases hat : saved.at_ key with
  | none =>
      rw [hat] at h
      cases h
  | some v =>
      rw [hat] at h
      dsimp only at h
      refine ⟨v, at_eq_some.mp hat, ?_, ?_⟩
      · rintro rfl
        rw [if_pos rfl] at h
        by_cases hv : v = []
        · rw [if_pos hv] at h
          cases h
        · rw [if_neg hv] at h
          exact ⟨hv, (Option.some.inj h).symm⟩
      · rintro rfl
        rw [if_neg (by simp)] at h
        by_cases hsame : memory.at_ key = some v
        · rw [if_pos hsame] at h
          exact ⟨at_eq_some.mp hsame, h⟩
        · rw [if_neg hsame] at h
          cases h

theorem carried_mem {settings : Settings} {blob : Option Settings}
    (h : v ∈ (carryForward settings blob).values) : v = [] ∨ ∃ b ∈ blob, v ∈ b.values := by
  obtain ⟨key, hmem⟩ := mem_values.mp h
  rw [fields_carryForward, List.mem_map] at hmem
  obtain ⟨x, _, hx⟩ := hmem
  obtain ⟨rfl, rfl⟩ := Prod.mk.inj hx
  cases blob with
  | none => exact .inl rfl
  | some b =>
      cases hstored : storedUnder b x.1 with
      | none => exact .inl (by simp [hstored])
      | some w => exact .inr ⟨b, rfl, by simpa [hstored] using storedUnder_mem hstored⟩

/-- A save that cannot seal keeps the stored values of every field it has. -/
theorem under_carried (h : Under g k s) {m : Session} (hm : s.session = some m)
    (hstatus : m.status ≠ .ok) (settings : Settings) :
    Under g k { s with
      blob := some (carryForward settings s.blob)
      session := some { m with memory := settings }
      promised := promise s.promised m.memory settings false } := by
  have hbare : Bare s.blob → Bare (some (carryForward settings s.blob)) := by
    intro hbare b hb v hv
    obtain rfl := Option.some.inj hb
    rcases carried_mem hv with hnil | ⟨b, hb, hv⟩
    · exact hnil
    · exact hbare b hb v hv
  refine ⟨?_, h.cache, ?_, ?_, ?_, ?_⟩
  · rcases h.owned with hstore | ⟨hnone, hlegacy | hempty⟩
    · exact .inl hstore
    · exact .inr ⟨hnone, .inl hlegacy⟩
    · exact .inr ⟨hnone, .inr (hbare hempty)⟩
  · intro b hb v hv
    obtain rfl := Option.some.inj hb
    rcases carried_mem hv with hnil | ⟨b, hb, hv⟩
    · exact .inl hnil
    · exact h.blob b hb v hv
  · intro key p hp
    obtain ⟨v, hv, _, hkept⟩ := promise_some hp
    obtain ⟨b, hb, n, hmem⟩ := h.promised key p (hkept rfl).2
    refine ⟨_, rfl, n, ?_⟩
    rw [fields_carryForward, List.mem_map]
    refine ⟨_, hv, ?_⟩
    rw [show s.blob = some b from hb, Option.bind_some, storedUnder_eq hmem]
    rfl
  · intro m' hm' key p hp
    obtain rfl := Option.some.inj hm'
    obtain ⟨v, hv, _, hkept⟩ := promise_some hp
    obtain ⟨hmemory, hpromised⟩ := hkept rfl
    -- it is blank in memory, and what is saved is what is there
    have hblank := h.memory m hm key p hpromised
    rw [if_neg hstatus] at hblank
    dsimp only
    rw [if_neg hstatus, ← value_unique hmemory hblank]
    exact hv
  · intro m' hm' hok
    obtain rfl := Option.some.inj hm'
    exact absurd hok hstatus

theorem under_unsealed (h : Under g k s) {m : Session} (hm : s.session = some m)
    (hstatus : m.status = .ok) (settings : Settings) {c : Custody κ} (hkeeps : Keeps s.custody c) :
    ∃ j, Under g j { s with
      custody := c
      session := some { m with memory := settings }
      promised := promise s.promised m.memory settings false } := by
  have hcache := hkeeps.cache h.cache
  have hown : s.custody.store = some k ∨ Bare s.blob :=
    h.owned.imp_right fun hnone => h.ready m hm hstatus hnone.1
  rcases hown with hstore | hbare
  · refine ⟨k, .inl (hkeeps.store k hstore), hcache, h.blob, ?_, ?_, ?_⟩
    · intro key p hp
      obtain ⟨v, _, _, hkept⟩ := promise_some hp
      exact h.promised key p (hkept rfl).2
    · intro m' hm' key p hp
      obtain rfl := Option.some.inj hm'
      obtain ⟨v, hv, _, hkept⟩ := promise_some hp
      obtain ⟨hmemory, hpromised⟩ := hkept rfl
      have hopen := h.memory m hm key p hpromised
      rw [if_pos hstatus] at hopen
      dsimp only
      rw [if_pos hstatus, ← value_unique hmemory hopen]
      exact hv
    · intro m' _ _ hnone
      exact absurd ((hkeeps.store k hstore).symm.trans hnone) (by simp)
  · refine under_bare hbare hcache (fun key => ?_) k
    cases hp : promise s.promised m.memory settings false key with
    | none => exact hp
    | some p =>
        obtain ⟨v, _, _, hkept⟩ := promise_some hp
        rw [h.nothing_promised hbare key] at hkept
        cases (hkept rfl).2

theorem under_sealed {m : Session} (hstatus : m.status = .ok) {settings : Settings}
    (hlooks : ∀ v ∈ settings.values, isEncrypted v = true → looksSealed v = false)
    {c : Custody κ} {j : κ} (hstore : c.store = some j)
    (hcache : ∀ k, c.cache = some k → c.store = some k) {written : Settings} (nonces : Nat → Nonce)
    (hwritten : written.fields =
      settings.fields.zipIdx.map fun x => (x.1.1, sealValue g j (nonces x.2) x.1.2)) :
    Under g j { s with
      custody := c
      blob := some written
      session := some { m with memory := settings }
      promised := promise s.promised m.memory settings true } := by
  have hvalue : ∀ v ∈ settings.values, ∀ n, v ≠ [] → sealValue g j n v = sealed g j n v := by
    intro v hv n hne
    unfold sealValue
    rw [if_neg hne]
    refine if_neg fun hboth => ?_
    obtain ⟨hencrypted, hsealed⟩ := Bool.and_eq_true_iff.mp hboth
    rw [hlooks v hv hencrypted] at hsealed
    cases hsealed
  refine ⟨.inl hstore, hcache, ?_, ?_, ?_, ?_⟩
  · intro b hb v hv
    obtain rfl := Option.some.inj hb
    obtain ⟨key, hmem⟩ := mem_values.mp hv
    rw [hwritten, List.mem_map] at hmem
    obtain ⟨⟨⟨key', w⟩, i⟩, hx, heq⟩ := hmem
    obtain ⟨rfl, rfl⟩ := Prod.mk.inj heq
    have hw : w ∈ settings.values :=
      mem_values.mpr ⟨key', (List.mem_of_getElem? (List.mem_zipIdx_iff_getElem?.mp hx))⟩
    by_cases hne : w = []
    · rw [hne]
      exact .inl rfl
    · exact .inr ⟨nonces i, w, hvalue w hw _ hne⟩
  · intro key p hp
    obtain ⟨v, hv, hnow, _⟩ := promise_some hp
    obtain ⟨hne, rfl⟩ := hnow rfl
    obtain ⟨i, hi⟩ := List.getElem?_of_mem hv
    refine ⟨written, rfl, nonces i, ?_⟩
    rw [hwritten, List.mem_map]
    refine ⟨((key, p), i), List.mem_zipIdx_iff_getElem?.mpr hi, ?_⟩
    rw [hvalue p (mem_values.mpr ⟨key, hv⟩) _ hne]
  · intro m' hm' key p hp
    obtain rfl := Option.some.inj hm'
    obtain ⟨v, hv, hnow, _⟩ := promise_some hp
    obtain ⟨_, rfl⟩ := hnow rfl
    dsimp only
    rw [if_pos hstatus]
    exact hv
  · intro m' _ _ hnone
    exact absurd (hstore.symm.trans hnone) (by simp)

variable {a : Access κ}

/-- **A save keeps the custody.** -/
theorem under_save (h : Under g k s) {settings : Settings} {nonces : Option (Nat → Nonce)}
    (hcareful : Careful s (.save settings a nonces)) (hsave : s.save g settings a nonces = some t) :
    ∃ j, Under g j t := by
  unfold Installation.save at hsave
  obtain ⟨m, hm, ht⟩ := Option.map_eq_some_iff.mp hsave
  unfold encryptSettings at ht
  by_cases hstatus : m.status = .ok
  · rw [if_neg (not_not_intro hstatus)] at ht
    have hkeeps := settingsKey_keeps a s.custody
    have hstored := @settingsKey_stored κ a s.custody
    unfold settingsSeal at ht
    cases hkey : settingsKey a s.custody with
    | mk r c =>
        rw [hkey] at ht hkeeps hstored
        cases r with
        | none =>
            obtain ⟨j, hunder⟩ := under_unsealed h hm hstatus settings hkeeps
            refine ⟨j, ?_⟩
            rw [← ht]
            simpa [hstatus] using hunder
        | some j =>
            cases nonces with
            | none =>
                obtain ⟨j, hunder⟩ := under_unsealed h hm hstatus settings hkeeps
                refine ⟨j, ?_⟩
                rw [← ht]
                simpa [hstatus] using hunder
            | some nonces =>
                have hunder := under_sealed (s := s) hstatus (hcareful m hm hstatus)
                  (hstored h.cache rfl) (hkeeps.cache h.cache) nonces (fields_sealed g j nonces settings)
                refine ⟨j, ?_⟩
                rw [← ht]
                simpa [hstatus] using hunder
  · rw [if_pos hstatus] at ht
    refine ⟨k, ?_⟩
    have hunder := under_carried h hm hstatus settings
    rw [← ht]
    simpa [hstatus] using hunder

/-! ## A start -/

variable {e : Startup κ} {c : Custody κ} {legacy : Option (Legacy κ)}

theorem settingsOpen_keeps (a : Access κ) (values : List Octets) (c : Custody κ) :
    Keeps c (settingsOpen g a values c).2 := by
  have hkeeps := settingsKey_keeps a c
  unfold settingsOpen
  cases hkey : settingsKey a c with
  | mk r c' =>
      rw [hkey] at hkeeps
      cases r <;> exact hkeeps

/-- What becomes of the legacy key: it is dropped only once the store has a key, and a store
that gets one gets this one. -/
structure Migrated (legacy legacy' : Option (Legacy κ)) (c c' : Custody κ) : Prop where
  keeps : Keeps c c'
  waits : c'.store = none → ∀ j, legacy = some (.key j) → legacy' = some (.key j)
  adopts : c.store = none → ∀ j, c'.store = some j → legacy = some (.key j)

theorem migrated_self (legacy : Option (Legacy κ)) (c : Custody κ) : Migrated legacy legacy c c where
  keeps := .refl c
  waits := fun _ _ h => h
  adopts := fun hnone j hj => by rw [hnone] at hj; cases hj

variable [DecidableEq κ]

theorem adopt_store {backFails : Bool} {k j : κ} (hnone : c.store = none)
    (h : (settingsAdoptKey a backFails k c).2.store = some j) : j = k := by
  have habsent : c.store ≠ some j := by
    rw [hnone]
    simp
  unfold settingsAdoptKey at h
  by_cases hpresent : a.present = false
  · rw [if_pos hpresent] at h
    exact absurd h habsent
  · rw [if_neg hpresent] at h
    by_cases hget : a.getFails = true
    · rw [if_pos hget] at h
      exact absurd h habsent
    · rw [if_neg hget, hnone] at h
      dsimp only at h
      by_cases hset : a.setFails = true
      · rw [if_pos hset] at h
        exact absurd h habsent
      · rw [if_neg hset] at h
        cases backFails <;> exact (Option.some.inj h).symm

theorem adopt_true {backFails : Bool} {k : κ} (h : (settingsAdoptKey a backFails k c).1 = true) :
    (settingsAdoptKey a backFails k c).2.store = some k := by
  unfold settingsAdoptKey at h ⊢
  by_cases hpresent : a.present = false
  · rw [if_pos hpresent] at h
    cases h
  · rw [if_neg hpresent] at h ⊢
    by_cases hget : a.getFails = true
    · rw [if_pos hget] at h
      cases h
    · rw [if_neg hget] at h ⊢
      cases hstore : c.store with
      | some existing =>
          rw [hstore] at h
          dsimp only at h ⊢
          by_cases heq : existing = k
          · rw [if_pos heq]
            exact congrArg some heq
          · rw [if_neg heq] at h
            cases h
      | none =>
          rw [hstore] at h
          dsimp only at h ⊢
          by_cases hset : a.setFails = true
          · rw [if_pos hset] at h
            cases h
          · rw [if_neg hset] at h ⊢
            cases backFails with
            | true => cases h
            | false => rfl

theorem adopt_takes {backFails : Bool} {k : κ} (hnone : c.store = none)
    (hpresent : a.present = true) (hget : a.getFails = false) (hset : a.setFails = false) :
    (settingsAdoptKey a backFails k c).2.store = some k := by
  unfold settingsAdoptKey
  rw [if_neg (by simp [hpresent]), if_neg (by simp [hget]), hnone]
  dsimp only
  rw [if_neg (by simp [hset])]
  cases backFails <;> rfl

theorem migrated (e : Startup κ) (values : List Octets) (legacy : Option (Legacy κ))
    (c : Custody κ) :
    Migrated legacy (migrateLegacyKey g e values legacy c).1 c
      (migrateLegacyKey g e values legacy c).2 := by
  cases legacy with
  | none => exact migrated_self none c
  | some l =>
      cases l with
      | unparsable =>
          refine ⟨.refl c, fun _ j hj => (by cases hj), fun hnone j hj => ?_⟩
          rw [show (migrateLegacyKey g e values (some .unparsable) c).2 = c from rfl, hnone] at hj
          cases hj
      | invalid => exact migrated_self _ c
      | key k =>
          have hkeeps := settingsAdoptKey_keeps e.adopt e.backFails k c
          have hadopts : c.store = none → ∀ j,
              (settingsAdoptKey e.adopt e.backFails k c).2.store = some j →
                some (Legacy.key k) = some (.key j) := fun hnone j hj => by
            rw [adopt_store hnone hj]
          have htrue : (settingsAdoptKey e.adopt e.backFails k c).1 = true →
              (settingsAdoptKey e.adopt e.backFails k c).2.store = some k := adopt_true
          unfold migrateLegacyKey
          dsimp only
          cases hadopt : settingsAdoptKey e.adopt e.backFails k c with
          | mk taken c' =>
              rw [hadopt] at hkeeps hadopts htrue
              dsimp only at hkeeps hadopts htrue
              cases taken with
              | false => exact ⟨hkeeps, fun _ _ hj => hj, hadopts⟩
              | true =>
                  have hstored := htrue rfl
                  -- the store has the key from here on
                  have hlater : ∀ {legacy' : Option (Legacy κ)} {c'' : Custody κ}, Keeps c' c'' →
                      Migrated (some (.key k)) legacy' c c'' := by
                    intro legacy' c'' hk
                    have hstored' := hk.store k hstored
                    refine ⟨hkeeps.trans hk, fun hnone => ?_, fun hnone j hj => ?_⟩
                    · rw [hstored'] at hnone
                      cases hnone
                    · rw [hstored'] at hj
                      obtain rfl := Option.some.inj hj
                      exact hadopts hnone k hstored
                  dsimp only
                  cases values.filter isEncrypted with
                  | nil => exact hlater (.refl c')
                  | cons v rest =>
                      have hopen := settingsOpen_keeps (g := g) e.check [v] c'
                      dsimp only
                      cases hop : settingsOpen g e.check [v] c' with
                      | mk r c'' =>
                          rw [hop] at hopen
                          cases r <;> exact hlater hopen

/-- Where the legacy key can be handed over, the store has it. -/
theorem migrate_takes {values : List Octets} {k : κ} (hlegacy : legacy = some (.key k))
    (hnone : c.store = none) (hpresent : e.adopt.present = true) (hget : e.adopt.getFails = false)
    (hset : e.adopt.setFails = false) :
    (migrateLegacyKey g e values legacy c).2.store = some k := by
  subst hlegacy
  have hstored : (settingsAdoptKey e.adopt e.backFails k c).2.store = some k :=
    adopt_takes hnone hpresent hget hset
  unfold migrateLegacyKey
  dsimp only
  cases hadopt : settingsAdoptKey e.adopt e.backFails k c with
  | mk taken c' =>
      rw [hadopt] at hstored
      cases taken with
      | false => exact hstored
      | true =>
          dsimp only
          cases values.filter isEncrypted with
          | nil => exact hstored
          | cons v rest =>
              have hopen := settingsOpen_keeps (g := g) e.check [v] c'
              dsimp only
              cases hop : settingsOpen g e.check [v] c' with
              | mk r c'' =>
                  rw [hop] at hopen
                  cases r <;> exact hopen.store k hstored

omit [DecidableEq κ] in
theorem settingsOpen_sealed {values : List Octets}
    (h : ∀ v ∈ values, v = [] ∨ ∃ n p, v = sealed g k n p) :
    values.mapM (openValue g k) = some (values.map fun v => (openValue g k v).getD []) := by
  refine mapM_eq_some fun v hv => ?_
  rcases h v hv with rfl | ⟨n, p, rfl⟩
  · rfl
  · rw [openValue_sealed]
    rfl

omit [DecidableEq κ] in
theorem settingsKey_refused (hcache : c.cache = none) (h : a.present = false ∨ a.getFails = true) :
    settingsKey a c = (none, c) := by
  unfold settingsKey
  by_cases hpresent : a.present = false
  · exact if_pos hpresent
  · rw [if_neg hpresent, hcache]
    exact if_pos (h.resolve_left hpresent)

/-- What `decryptSettings` makes of a sealed blob: its credentials are open and their key is
stored, or they are blank. -/
structure Decrypted (g : Aead κ) (k : κ) (raw : Settings) (c : Custody κ)
    (r : Session × Custody κ) : Prop where
  keeps : Keeps c r.2
  memory : ∀ key n p, (key, sealed g k n p) ∈ raw.fields →
    (key, if r.1.status = .ok then p else []) ∈ r.1.memory.fields
  store : r.2.store = some k ∨ r.1.status ≠ .ok ∧ r.2.store = c.store

omit [DecidableEq κ] in
theorem mem_blankSealed {raw : Settings} {key : Key} {n : Nonce} {p : Octets}
    (h : (key, sealed g k n p) ∈ raw.fields) : (key, []) ∈ (blankSealed raw).fields := by
  rw [fields_blankSealed, List.mem_map]
  exact ⟨_, h, by simp [isEncrypted_sealed]⟩

omit [DecidableEq κ] in
theorem decrypted {raw : Settings} (hcache : ∀ j, c.cache = some j → c.store = some j)
    (hsealed : ∀ v ∈ raw.values, v = [] ∨ ∃ n p, v = sealed g k n p)
    (hany : raw.values.any isEncrypted = true)
    (hkey : c.store = some k ∨ c.store = none ∧
      (refreshStatus e.status = none → e.opening.present = false ∨ e.opening.getFails = true)) :
    Decrypted g k raw c (decryptSettings g e raw c) := by
  have hblank : ∀ {status : Status} {c' : Custody κ}, status ≠ .ok → Keeps c c' →
      c'.store = some k ∨ c'.store = c.store →
        Decrypted g k raw c ({ memory := blankSealed raw, status }, c') := by
    intro status c' hstatus hkeeps hstore
    refine ⟨hkeeps, fun key n p hmem => ?_, hstore.imp_right fun h => ⟨hstatus, h⟩⟩
    rw [if_neg hstatus]
    exact mem_blankSealed hmem
  unfold decryptSettings
  rw [if_neg (by simp [hany])]
  cases hrefresh : refreshStatus e.status with
  | some status =>
      refine hblank ?_ (.refl c) (.inr rfl)
      -- what is found wrong is never that all is well
      unfold refreshStatus at hrefresh
      by_cases hpresent : e.status.present = false
      · rw [if_pos hpresent] at hrefresh
        cases hrefresh
        decide
      · rw [if_neg hpresent] at hrefresh
        by_cases hget : e.status.getFails = true
        · rw [if_pos hget] at hrefresh
          cases hrefresh
          decide
        · rw [if_neg hget] at hrefresh
          cases hrefresh
  | none =>
      dsimp only
      unfold settingsOpen
      have hkeeps := settingsKey_keeps e.opening c
      rcases hkey with hstore | ⟨hnone, hrefused⟩
      · have hstored := @settingsKey_stored κ e.opening c
        cases hopening : settingsKey e.opening c with
        | mk r c' =>
            rw [hopening] at hkeeps hstored
            have hstore' := hkeeps.store k hstore
            cases r with
            | none => exact hblank (by decide) hkeeps (.inl hstore')
            | some j =>
                have hj : c'.store = some j := hstored hcache rfl
                rw [hstore'] at hj
                obtain rfl := Option.some.inj hj
                dsimp only
                rw [settingsOpen_sealed hsealed]
                refine ⟨hkeeps, fun key n p hmem => ?_, .inl hstore'⟩
                dsimp only
                rw [if_pos rfl, values_map, fields_fill_map, List.mem_map]
                refine ⟨_, hmem, ?_⟩
                rw [openValue_sealed]
                rfl
      · have hcache' : c.cache = none := by
          cases hc : c.cache with
          | none => rfl
          | some j =>
              have := hcache j hc
              rw [hnone] at this
              cases this
        rw [settingsKey_refused hcache' (hrefused hrefresh)]
        exact hblank (by decide) (.refl c) (.inr rfl)

omit [DecidableEq κ] in
theorem any_isEncrypted {raw : Settings}
    (hsealed : ∀ v ∈ raw.values, v = [] ∨ ∃ n p, v = sealed g k n p) :
    raw.values.any isEncrypted = true ↔ ∃ v ∈ raw.values, v ≠ [] := by
  rw [List.any_eq_true]
  constructor
  · rintro ⟨v, hv, hencrypted⟩
    refine ⟨v, hv, ?_⟩
    rintro rfl
    cases hencrypted
  · rintro ⟨v, hv, hne⟩
    rcases hsealed v hv with hnil | ⟨n, p, rfl⟩
    · exact absurd hnil hne
    · exact ⟨_, hv, isEncrypted_sealed g k n p⟩

theorem start_decrypted (h : Under g k s) (hcareful : Careful s (.start e)) {raw : Settings}
    (hblob : s.blob = some raw) (hany : raw.values.any isEncrypted = true) :
    let r := migrateLegacyKey g e raw.values s.legacy { s.custody with cache := none }
    Decrypted g k raw r.2 (decryptSettings g e raw r.2) ∧
      (r.2.store = some k ∨ r.2.store = none ∧ r.1 = some (.key k)) := by
  intro r
  have hmig : Migrated s.legacy r.1 { s.custody with cache := none } r.2 := migrated e _ _ _
  have hsealed := h.blob raw (by rw [hblob]; rfl)
  have hbare : ¬ Bare s.blob := by
    intro hbare
    obtain ⟨v, hv, hne⟩ := (any_isEncrypted hsealed).mp hany
    exact hne (hbare raw (by rw [hblob]; rfl) v hv)
  have hcache : ∀ j, r.2.cache = some j → r.2.store = some j :=
    hmig.keeps.cache fun j hj => by cases hj
  rcases h.owned with hstore | ⟨hnone, hlegacy⟩
  · have hstore' := hmig.keeps.store k hstore
    exact ⟨decrypted hcache hsealed hany (.inl hstore'), .inl hstore'⟩
  · -- the legacy key is handed over now, or waits on
    have hlegacy := hlegacy.resolve_right hbare
    cases hstore : r.2.store with
    | some j =>
        obtain rfl : k = j := by
          have := hmig.adopts hnone j hstore
          rw [hlegacy] at this
          cases this
          rfl
        exact ⟨decrypted hcache hsealed hany (.inl hstore), .inl rfl⟩
    | none =>
        refine ⟨decrypted hcache hsealed hany (.inr ⟨hstore, fun husable => ?_⟩),
          .inr ⟨rfl, hmig.waits hstore k hlegacy⟩⟩
        rcases hcareful ⟨k, hlegacy⟩ hnone husable with ⟨hpresent, hget, hset⟩ | hrefused
        · have htaken : r.2.store = some k := migrate_takes hlegacy hnone hpresent hget hset
          rw [hstore] at htaken
          cases htaken
        · exact hrefused

theorem start_none (hblob : s.blob = none) :
    let r := migrateLegacyKey g e [] s.legacy { s.custody with cache := none }
    s.start g e = { s with
      custody := r.2
      legacy := r.1
      session := some { memory := defaults, status := (refreshStatus e.status).getD .ok } } := by
  unfold Installation.start
  rw [hblob]

theorem start_some {raw : Settings} (hblob : s.blob = some raw) :
    let r := migrateLegacyKey g e raw.values s.legacy { s.custody with cache := none }
    s.start g e = { s with
      custody := (decryptSettings g e raw r.2).2
      legacy := r.1
      session := some (decryptSettings g e raw r.2).1 } := by
  unfold Installation.start
  rw [hblob]

/-- **A start keeps the custody.** -/
theorem under_start (h : Under g k s) (hcareful : Careful s (.start e)) :
    ∃ j, Under g j (s.start g e) := by
  have hcache : ∀ j, ({ s.custody with cache := none } : Custody κ).cache = some j →
      ({ s.custody with cache := none } : Custody κ).store = some j := fun j hj => by cases hj
  cases hblob : s.blob with
  | none =>
      have hbare : Bare s.blob := by
        rw [hblob]
        exact fun b hb => by cases hb
      have hmig : Migrated s.legacy _ { s.custody with cache := none } _ :=
        migrated (g := g) e [] s.legacy { s.custody with cache := none }
      rw [start_none hblob]
      exact under_bare (fun b hb => hbare b hb) (hmig.keeps.cache hcache)
        (h.nothing_promised hbare) k
  | some raw =>
      have hsealed := h.blob raw (by rw [hblob]; rfl)
      have hmig : Migrated s.legacy _ { s.custody with cache := none } _ :=
        migrated (g := g) e raw.values s.legacy { s.custody with cache := none }
      by_cases hany : raw.values.any isEncrypted = true
      · obtain ⟨hdecrypted, howned⟩ := start_decrypted h hcareful hblob hany
        rw [start_some hblob]
        refine ⟨k, ?_, hdecrypted.keeps.cache (hmig.keeps.cache hcache), ?_, ?_, ?_, ?_⟩
        · rcases hdecrypted.store with hstore | ⟨_, hsame⟩
          · exact .inl hstore
          · rcases howned with hstore | ⟨hnone, hlegacy⟩
            · exact .inl (hsame.trans hstore)
            · exact .inr ⟨hsame.trans hnone, .inl hlegacy⟩
        · exact h.blob
        · exact h.promised
        · intro m hm key p hp
          obtain rfl := Option.some.inj hm
          obtain ⟨b, hb, n, hmem⟩ := h.promised key p hp
          rw [hblob] at hb
          obtain rfl := Option.some.inj hb
          exact hdecrypted.memory key n p hmem
        · intro m hm hok hnone
          obtain rfl := Option.some.inj hm
          rcases hdecrypted.store with hstore | ⟨hlocked, _⟩
          · exact absurd (hstore.symm.trans hnone) (by simp)
          · exact absurd hok hlocked
      · have hbare : Bare s.blob := by
          intro b hb v hv
          rw [hblob] at hb
          obtain rfl := Option.some.inj hb
          by_contra hne
          exact hany ((any_isEncrypted hsealed).mpr ⟨v, hv, hne⟩)
        rw [start_some hblob]
        unfold decryptSettings
        rw [if_pos (by simpa using hany)]
        exact under_bare (fun b hb => hbare b hb) (hmig.keeps.cache hcache)
          (h.nothing_promised hbare) k

omit [DecidableEq κ] in
theorem decrypted_opens {raw : Settings} (hopens : e.Opens)
    (hcache : ∀ j, c.cache = some j → c.store = some j)
    (hsealed : ∀ v ∈ raw.values, v = [] ∨ ∃ n p, v = sealed g k n p)
    (hany : raw.values.any isEncrypted = true) (hstore : c.store = some k) :
    (decryptSettings g e raw c).1.status = .ok := by
  have hanswer := settingsKey_answers hcache hopens.present hopens.get hstore
  unfold decryptSettings
  rw [if_neg (by simp [hany]), hopens.usable]
  unfold settingsOpen
  cases hopening : settingsKey e.opening c with
  | mk r c' =>
      rw [hopening] at hanswer
      obtain rfl : r = some k := hanswer
      dsimp only
      rw [settingsOpen_sealed hsealed]

theorem Under.survives (h : Under g k s) (hopens : e.Opens) (hcareful : Careful s (.start e)) :
    ∃ m ∈ (s.start g e).session, ∀ key p, s.promised key = some p → (key, p) ∈ m.memory.fields := by
  have hnothing : Bare s.blob → ∀ m : Session, ∀ key p, s.promised key = some p →
      (key, p) ∈ m.memory.fields := by
    intro hbare m key p hp
    rw [h.nothing_promised hbare key] at hp
    cases hp
  cases hblob : s.blob with
  | none =>
      rw [start_none hblob]
      refine ⟨_, rfl, hnothing ?_ _⟩
      rw [hblob]
      exact fun b hb => by cases hb
  | some raw =>
      have hsealed := h.blob raw (by rw [hblob]; rfl)
      rw [start_some hblob]
      refine ⟨_, rfl, ?_⟩
      by_cases hany : raw.values.any isEncrypted = true
      · obtain ⟨hdecrypted, howned⟩ := start_decrypted h hcareful hblob hany
        have hmig : Migrated s.legacy _ { s.custody with cache := none } _ :=
          migrated (g := g) e raw.values s.legacy { s.custody with cache := none }
        have hstore : (migrateLegacyKey g e raw.values s.legacy
            { s.custody with cache := none }).2.store = some k := by
          rcases howned with hstore | ⟨hnone, hlegacy⟩
          · exact hstore
          · -- a key that still waits was handed over after all
            cases hs : s.custody.store with
            | some j =>
                have := hmig.keeps.store j hs
                rw [hnone] at this
                cases this
            | none =>
                have hwaits : s.legacy = some (.key k) := by
                  rcases h.owned with hstore | ⟨_, hlegacy | hbare⟩
                  · rw [hs] at hstore
                    cases hstore
                  · exact hlegacy
                  · obtain ⟨v, hv, hne⟩ := (any_isEncrypted hsealed).mp hany
                    exact absurd (hbare raw (by rw [hblob]; rfl) v hv) hne
                rcases hcareful ⟨k, hwaits⟩ hs hopens.usable with ⟨hpresent, hget, hset⟩ | hrefused
                · exact migrate_takes hwaits hs hpresent hget hset
                · rw [hopens.present, hopens.get] at hrefused
                  simp at hrefused
        have hok := decrypted_opens hopens (hmig.keeps.cache fun j hj => by cases hj) hsealed hany
          hstore
        intro key p hp
        obtain ⟨b, hb, n, hmem⟩ := h.promised key p hp
        rw [hblob] at hb
        obtain rfl := Option.some.inj hb
        have := hdecrypted.memory key n p hmem
        rwa [if_pos hok] at this
      · refine hnothing ?_ _
        intro b hb v hv
        rw [hblob] at hb
        obtain rfl := Option.some.inj hb
        by_contra hne
        exact hany ((any_isEncrypted hsealed).mpr ⟨v, hv, hne⟩)

/-! ## Runs -/

theorem under_step {move : Move κ} (h : ∃ k, Under g k s) (hcareful : Careful s move)
    (hstep : step g s move = some t) : ∃ k, Under g k t := by
  obtain ⟨k, h⟩ := h
  cases move with
  | start e =>
      obtain rfl := Option.some.inj hstep
      exact under_start h hcareful
  | save settings a nonces => exact under_save h hcareful hstep

theorem Under.safe (h : Under g k s) : Safe g s where
  hidden := h.hides
  survives := fun _ hopens hcareful => h.survives hopens hcareful

end

/-- **Credentials survive and are never in clear**: in every run of careful starts and saves,
from a profile nothing was saved in or as an earlier version left it. -/
theorem credentials_survive [DecidableEq κ] [Inhabited κ] (g : Aead κ) {s t : Installation κ}
    {moves : List (Move κ)} (hstart : Untouched g s)
    (hrun : Run (step g) Careful s moves t) : Safe g t := by
  obtain ⟨k, h⟩ := hrun.invariant (under_untouched hstart) fun _ _ _ => under_step
  exact h.safe

/-! ## Two credentials -/

def working : Access UInt8 := { fresh := 7 }

/-- A start at which the credential store works. -/
def calm : Startup UInt8 := { status := working, adopt := working, check := working, opening := working }

def zeros : Nat → Nonce := fun _ => ⟨List.replicate 12 0, rfl⟩

/-- A first start, and a save of a community. -/
def saveOf (community : Octets) : List (Move UInt8) :=
  [.start calm, .save { defaults with community } working (some zeros)]

theorem credentials_survive_public :
    ∃ t, exec (step tagging) {} (saveOf (octets "public")) = some t ∧
      t.promised (.setting .community) = some (octets "public") ∧ Safe tagging t := by
  refine ⟨_, rfl, rfl, credentials_survive tagging
    (show Untouched tagging {} from ⟨rfl, rfl, fun b hb => (by cases hb), fun _ _ hp => (by cases hp)⟩) (?_ : Run _ _ _ (saveOf (octets "public")) _)⟩
  refine .head ?_ rfl (.head ?_ rfl (.refl _))
  · rintro ⟨_, h⟩
    cases h
  · intro m _ _ v hv hencrypted
    have hall : ∀ v ∈ ({ defaults with community := octets "public" } : Settings).values,
        isEncrypted v = false := by decide
    rw [hall v hv] at hencrypted
    cases hencrypted

/-- A community that reads like a sealed value: the prefix, and 28 octets in base64. -/
def lookalike : Octets := octets "enc:AAAAAAAAAAAAAAAAAAAAAAAAAAAAAAAAAAAAAA=="

/-- It is written as it is, and nothing opens at the next start. -/
theorem lookalike_lost :
    ∃ t, exec (step tagging) {} (saveOf lookalike) = some t ∧
      (∃ b ∈ t.blob, b.community = lookalike) ∧ ¬ Safe tagging t := by
  refine ⟨_, rfl, ⟨_, rfl, by decide⟩, fun h => ?_⟩
  obtain ⟨m, hm, hopen⟩ := h.survives calm ⟨rfl, rfl, rfl⟩ (by rintro ⟨_, hk⟩; cases hk)
  have hlost := hopen (.setting .community) lookalike (by decide)
  obtain rfl := Option.some.inj hm
  exact absurd hlost (by decide)

end SnmpLens.Credentials
