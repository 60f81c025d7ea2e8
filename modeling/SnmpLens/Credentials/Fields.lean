import Mathlib.Data.List.Nodup
import SnmpLens.Lib.Utf8

/-!
# The credentials of a settings object

`fields` of `utils/crypto.js`: every sensitive field of a settings object, in a stable
order, each under a key that names its owner. What is sealed, opened, blanked or carried
forward is this list, read off and written back by position.

A profile is as `normaliseProfile` makes it, which is applied before every save and on
load: no credential of the other kind, no repeated id.
-/

namespace SnmpLens.Credentials

open Utf8

/-! ## Keys -/

inductive Field where
  | community
  | authPass
  | privPass
deriving DecidableEq, Repr

/-- Whose credential it is. -/
inductive Key where
  /-- The settings' own. -/
  | setting (f : Field)
  | target (addr : Octets) (f : Field)
  | profile (id : Octets) (f : Field)
deriving DecidableEq, Repr

namespace Key

/-- `SENSITIVE_PATHS`, joined. -/
def path : Field → Octets
  | .community => octets "community"
  | .authPass => octets "v3.authPass"
  | .privPass => octets "v3.privPass"

/-- The key as the code writes it. -/
def text : Key → Octets
  | .setting f => path f
  | .target addr f => octets "o:" ++ addr ++ octets "." ++ path f
  | .profile id f => octets "p:" ++ id ++ octets "." ++ path f

theorem path_of_suffix {a b : Octets} {f f' : Field} (h : a ++ path f = b ++ path f') : f = f' := by
  have hlast : (path f).reverse.take 9 = (path f').reverse.take 9 := by
    have hrev : ∀ (c : Octets) (f : Field),
        (c ++ path f).reverse.take 9 = (path f).reverse.take 9 := by
      intro c f
      have hlen : 9 ≤ (path f).reverse.length := by cases f <;> decide
      rw [List.reverse_append, List.take_append_of_le_length hlen]
    rw [← hrev a f, ← hrev b f', h]
  cases f <;> cases f' <;> first | rfl | exact absurd hlast (by decide)

/-- **One owner's field, one key.** -/
theorem text_inj {k k' : Key} (h : k.text = k'.text) : k = k' := by
  have hfield : ∀ (f : Field) (c : UInt8) (t : Octets), c ∈ [111, 112] → path f ≠ c :: t := by
    intro f c t hc hpath
    have hhead : ∀ f : Field, (path f).head? ≠ some 111 ∧ (path f).head? ≠ some 112 := by
      intro f
      cases f <;> decide
    have hc' : (path f).head? = some c := by rw [hpath]; rfl
    simp only [List.mem_cons, List.not_mem_nil, or_false] at hc
    rcases hc with rfl | rfl
    · exact (hhead f).1 hc'
    · exact (hhead f).2 hc'
  cases k with
  | setting f =>
      cases k' with
      | setting f' => exact congrArg _ (path_of_suffix (a := []) (b := []) h)
      | target addr f' => exact absurd h (hfield f 111 _ (by decide))
      | profile id f' => exact absurd h (hfield f 112 _ (by decide))
  | target addr f =>
      cases k' with
      | setting f' => exact absurd h.symm (hfield f' 111 _ (by decide))
      | target addr' f' =>
          obtain rfl := path_of_suffix h
          have haddr := List.append_cancel_right (List.append_cancel_right h)
          rw [List.append_cancel_left haddr]
      | profile id f' => exact absurd (List.cons.inj h).1 (by decide)
  | profile id f =>
      cases k' with
      | setting f' => exact absurd h.symm (hfield f' 112 _ (by decide))
      | target addr f' => exact absurd (List.cons.inj h).1 (by decide)
      | profile id' f' =>
          obtain rfl := path_of_suffix h
          have hid := List.append_cancel_right (List.append_cancel_right h)
          rw [List.append_cancel_left hid]

end Key

/-! ## Settings -/

/-- The passphrases an override's own SNMPv3 block has. -/
structure V3 where
  authPass : Option Octets
  privPass : Option Octets
deriving DecidableEq, Repr

/-- What a target is given instead of the settings' own. -/
structure Override where
  community : Option Octets
  v3 : Option V3
deriving DecidableEq, Repr

/-- The credential of a profile, of the one kind its version uses. -/
inductive Identity where
  | community (c : Octets)
  | v3 (authPass privPass : Octets)
deriving DecidableEq, Repr

structure Profile where
  id : Octets
  identity : Identity
deriving DecidableEq, Repr

/-- A settings object. An override stands under the address it is for, which is a key of an
object; what holds no credential is `rest`. -/
structure Settings where
  community : Octets
  authPass : Octets
  privPass : Octets
  overrides : List (Octets × Override)
  profiles : List Profile
  rest : Octets
  addrs : (overrides.map Prod.fst).Nodup
  ids : (profiles.map Profile.id).Nodup
deriving DecidableEq

/-- A field: its key, and what it holds. -/
abbrev Slot : Type := Key × Octets

def Override.fields (addr : Octets) (o : Override) : List Slot :=
  (o.community.toList.map fun v => (Key.target addr .community, v)) ++
    match o.v3 with
    | none => []
    | some v3 =>
        (v3.authPass.toList.map fun v => (Key.target addr .authPass, v)) ++
          v3.privPass.toList.map fun v => (Key.target addr .privPass, v)

def Profile.fields (p : Profile) : List Slot :=
  match p.identity with
  | .community c => [(.profile p.id .community, c)]
  | .v3 authPass privPass =>
      [(.profile p.id .authPass, authPass), (.profile p.id .privPass, privPass)]

def Settings.fields (s : Settings) : List Slot :=
  [(.setting .community, s.community), (.setting .authPass, s.authPass),
    (.setting .privPass, s.privPass)] ++
  (s.overrides.flatMap fun x => x.2.fields x.1) ++ s.profiles.flatMap Profile.fields

/-! ## Writing the fields back -/

/-- The next answer, for a field that is there. -/
def fillOne (o : Option Octets) (vs : List Octets) : Option Octets × List Octets :=
  match o with
  | none => (none, vs)
  | some _ => (some (vs.headD []), vs.tail)

def Override.fill (o : Override) (vs : List Octets) : Override × List Octets :=
  let (community, vs) := fillOne o.community vs
  match o.v3 with
  | none => ({ community, v3 := none }, vs)
  | some v3 =>
      let (authPass, vs) := fillOne v3.authPass vs
      let (privPass, vs) := fillOne v3.privPass vs
      ({ community, v3 := some { authPass, privPass } }, vs)

def Profile.fill (p : Profile) (vs : List Octets) : Profile × List Octets :=
  match p.identity with
  | .community _ => ({ p with identity := .community (vs.headD []) }, vs.tail)
  | .v3 _ _ => ({ p with identity := .v3 (vs.headD []) (vs.tail.headD []) }, vs.tail.tail)

/-- One after another, each takes what the ones before it have left. -/
def fillEach {ι : Type} (fill : ι → List Octets → ι × List Octets) :
    List ι → List Octets → List ι × List Octets
  | [], vs => ([], vs)
  | x :: rest, vs =>
      let (x, vs) := fill x vs
      let (rest, vs) := fillEach fill rest vs
      (x :: rest, vs)

theorem map_fillEach {ι κ : Type} {fill : ι → List Octets → ι × List Octets} {name : ι → κ}
    (h : ∀ x vs, name (fill x vs).1 = name x) (xs : List ι) (vs : List Octets) :
    (fillEach fill xs vs).1.map name = xs.map name := by
  induction xs generalizing vs with
  | nil => rfl
  | cons x rest ih =>
      rw [fillEach, List.map_cons, List.map_cons, h, ih]

/-- An override with the fields it has, and the address it is under. -/
def fillOverride (x : Octets × Override) (vs : List Octets) : (Octets × Override) × List Octets :=
  ((x.1, (x.2.fill vs).1), (x.2.fill vs).2)

theorem id_fill (p : Profile) (vs : List Octets) : (p.fill vs).1.id = p.id := by
  unfold Profile.fill
  cases p.identity <;> rfl

/-- `slots.forEach((s, i) => s.set(answers[i]))`. -/
def Settings.fill (s : Settings) (vs : List Octets) : Settings where
  community := vs.headD []
  authPass := vs.tail.headD []
  privPass := vs.tail.tail.headD []
  overrides := (fillEach fillOverride s.overrides (vs.drop 3)).1
  profiles := (fillEach Profile.fill s.profiles (fillEach fillOverride s.overrides (vs.drop 3)).2).1
  rest := s.rest
  addrs := by
    rw [map_fillEach fun _ _ => rfl]
    exact s.addrs
  ids := by
    rw [map_fillEach id_fill]
    exact s.ids

/-- The keys of a settings object. -/
def Settings.keys (s : Settings) : List Key := s.fields.map Prod.fst

/-- The values. -/
def Settings.values (s : Settings) : List Octets := s.fields.map Prod.snd

/-- Something that is filled in order: it takes as many answers as it has fields, and each
field becomes its answer. -/
def Fills {ι : Type} (fields : ι → List Slot) (fill : ι → List Octets → ι × List Octets) : Prop :=
  ∀ x vs more, vs.length = (fields x).length →
    fields (fill x (vs ++ more)).1 = ((fields x).map Prod.fst).zip vs ∧
      (fill x (vs ++ more)).2 = more

theorem fills_override : Fills (fun x : Octets × Override => x.2.fields x.1) fillOverride := by
  rintro ⟨addr, community, v3⟩ vs more h
  cases community <;> cases v3 with
  | none =>
      rcases vs with _ | ⟨a, _ | ⟨b, vs⟩⟩ <;>
        simp_all [Override.fields, Override.fill, fillOverride, fillOne]
  | some v3 =>
      obtain ⟨authPass, privPass⟩ := v3
      cases authPass <;> cases privPass <;>
        rcases vs with _ | ⟨a, _ | ⟨b, _ | ⟨c, _ | ⟨d, vs⟩⟩⟩⟩ <;>
          simp_all [Override.fields, Override.fill, fillOverride, fillOne]

theorem fills_profile : Fills Profile.fields Profile.fill := by
  rintro ⟨id, identity⟩ vs more h
  cases identity <;>
    rcases vs with _ | ⟨a, _ | ⟨b, _ | ⟨c, vs⟩⟩⟩ <;> simp_all [Profile.fields, Profile.fill]

theorem fills_each {ι : Type} {fields : ι → List Slot}
    {fill : ι → List Octets → ι × List Octets} (h : Fills fields fill) :
    Fills (fun xs : List ι => xs.flatMap fields) (fillEach fill) := by
  intro xs
  induction xs with
  | nil =>
      intro vs more hlen
      obtain rfl := List.length_eq_zero_iff.mp hlen
      exact ⟨rfl, rfl⟩
  | cons x rest ih =>
      intro vs more hlen
      dsimp only at hlen ih ⊢
      rw [List.flatMap_cons, List.length_append] at hlen
      -- the first takes its own, and the rest is filled from what is left
      have hvs := (List.take_append_drop (fields x).length vs).symm
      have htake : (vs.take (fields x).length).length = (fields x).length := by
        rw [List.length_take]
        omega
      have hdrop : (vs.drop (fields x).length).length = (rest.flatMap fields).length := by
        rw [List.length_drop]
        omega
      obtain ⟨hfirst, hleft⟩ := h x (vs.take (fields x).length)
        (vs.drop (fields x).length ++ more) htake
      rw [← List.append_assoc, ← hvs] at hfirst hleft
      obtain ⟨hrest, hmore⟩ := ih (vs.drop (fields x).length) more hdrop
      rw [fillEach]
      dsimp only
      rw [hleft]
      refine ⟨?_, hmore⟩
      rw [List.flatMap_cons, hfirst, hrest, List.flatMap_cons, List.map_append]
      conv_rhs => rw [hvs]
      exact (List.zip_append (by rw [List.length_map, htake])).symm

/-- **What is written back is what is read off**, field by field. -/
theorem fields_fill {s : Settings} {vs : List Octets} (h : vs.length = s.fields.length) :
    (s.fill vs).fields = s.keys.zip vs := by
  obtain ⟨a, b, c, vs, rfl⟩ : ∃ a b c rest, vs = a :: b :: c :: rest := by
    unfold Settings.fields at h
    rcases vs with _ | ⟨a, _ | ⟨b, _ | ⟨c, vs⟩⟩⟩
    · cases h
    · cases h
    · cases h
    · exact ⟨a, b, c, vs, rfl⟩
  have hlen : vs.length = (s.overrides.flatMap fun x => x.2.fields x.1).length +
      (s.profiles.flatMap Profile.fields).length := by
    unfold Settings.fields at h
    simp only [List.length_append, List.length_cons, List.length_nil] at h
    omega
  -- the overrides take theirs, and the profiles what is left
  have hvs := List.take_append_drop (s.overrides.flatMap fun x => x.2.fields x.1).length vs
  obtain ⟨hover, hleft⟩ := fills_each fills_override s.overrides
    (vs.take (s.overrides.flatMap fun x => x.2.fields x.1).length)
    (vs.drop (s.overrides.flatMap fun x => x.2.fields x.1).length) (by
      rw [List.length_take]
      dsimp only
      omega)
  obtain ⟨hprofiles, _⟩ := fills_each fills_profile s.profiles
    (vs.drop (s.overrides.flatMap fun x => x.2.fields x.1).length) [] (by
      rw [List.length_drop]
      dsimp only
      omega)
  dsimp only at hover hleft hprofiles
  rw [hvs] at hover hleft
  rw [List.append_nil] at hprofiles
  unfold Settings.fill Settings.keys Settings.fields
  dsimp only [List.headD, List.tail, List.drop]
  rw [hover, hleft, hprofiles, List.append_assoc, List.append_assoc]
  simp only [List.map_append, List.map_cons, List.cons_append, List.nil_append,
    List.zip_cons_cons]
  conv_rhs => rw [← hvs]
  rw [List.zip_append (by rw [List.length_map, List.length_take]; omega)]

theorem length_values (s : Settings) : s.values.length = s.fields.length := List.length_map _

/-! ## One field, one key -/

theorem mem_override_fields {addr : Octets} {o : Override} {x : Slot} (h : x ∈ o.fields addr) :
    ∃ f, x.1 = .target addr f := by
  unfold Override.fields at h
  rcases List.mem_append.mp h with h | h
  · obtain ⟨v, _, rfl⟩ := List.mem_map.mp h
    exact ⟨_, rfl⟩
  · cases hv3 : o.v3 with
    | none =>
        rw [hv3] at h
        exact absurd h List.not_mem_nil
    | some v3 =>
        rw [hv3] at h
        rcases List.mem_append.mp h with h | h <;>
          (obtain ⟨v, _, rfl⟩ := List.mem_map.mp h; exact ⟨_, rfl⟩)

theorem mem_profile_fields {p : Profile} {x : Slot} (h : x ∈ p.fields) :
    ∃ f, x.1 = .profile p.id f := by
  unfold Profile.fields at h
  cases hid : p.identity with
  | community c =>
      rw [hid] at h
      obtain rfl := List.mem_singleton.mp h
      exact ⟨_, rfl⟩
  | v3 authPass privPass =>
      rw [hid] at h
      rcases List.mem_cons.mp h with rfl | h
      · exact ⟨_, rfl⟩
      · obtain rfl := List.mem_singleton.mp h
        exact ⟨_, rfl⟩

theorem nodup_override_keys (addr : Octets) (o : Override) :
    ((o.fields addr).map Prod.fst).Nodup := by
  obtain ⟨community, v3⟩ := o
  cases community <;> cases v3 with
  | none => simp [Override.fields]
  | some v3 =>
      obtain ⟨authPass, privPass⟩ := v3
      cases authPass <;> cases privPass <;> simp [Override.fields]

theorem nodup_profile_keys (p : Profile) : (p.fields.map Prod.fst).Nodup := by
  unfold Profile.fields
  cases p.identity <;> simp

/-- Keys that name their owner do not repeat where the owners do not. -/
theorem nodup_flatMap_keys {ι ν : Type} {xs : List ι} {fields : ι → List Slot} {name : ι → ν}
    (hnames : (xs.map name).Nodup) (hnodup : ∀ x, ((fields x).map Prod.fst).Nodup)
    (hname : ∀ x y k, k ∈ (fields x).map Prod.fst → k ∈ (fields y).map Prod.fst →
      name x = name y) :
    ((xs.flatMap fields).map Prod.fst).Nodup := by
  rw [List.map_flatMap, List.nodup_flatMap]
  refine ⟨fun x _ => hnodup x, ?_⟩
  have hpair : xs.Pairwise fun x y => name x ≠ name y := List.pairwise_map.mp hnames
  exact hpair.imp fun hne k hx hy => hne (hname _ _ k hx hy)

/-- **No key is there twice.** -/
theorem nodup_keys (s : Settings) : s.keys.Nodup := by
  have howner : ∀ x : Octets × Override, ∀ k ∈ (x.2.fields x.1).map Prod.fst,
      ∃ f, k = .target x.1 f := by
    intro x k hk
    obtain ⟨y, hy, rfl⟩ := List.mem_map.mp hk
    exact mem_override_fields hy
  have hprofile : ∀ p : Profile, ∀ k ∈ p.fields.map Prod.fst, ∃ f, k = .profile p.id f := by
    intro p k hk
    obtain ⟨y, hy, rfl⟩ := List.mem_map.mp hk
    exact mem_profile_fields hy
  have hover : ((s.overrides.flatMap fun x => x.2.fields x.1).map Prod.fst).Nodup := by
    refine nodup_flatMap_keys s.addrs (fun x => nodup_override_keys _ _) fun x y k hx hy => ?_
    obtain ⟨f, rfl⟩ := howner x k hx
    obtain ⟨f', hk⟩ := howner y _ hy
    exact (Key.target.inj hk).1
  have hids : ((s.profiles.flatMap Profile.fields).map Prod.fst).Nodup := by
    refine nodup_flatMap_keys s.ids nodup_profile_keys fun x y k hx hy => ?_
    obtain ⟨f, rfl⟩ := hprofile x k hx
    obtain ⟨f', hk⟩ := hprofile y _ hy
    exact (Key.profile.inj hk).1
  -- whose key it is tells the three kinds apart
  have hkind : ∀ k ∈ (s.overrides.flatMap fun x => x.2.fields x.1).map Prod.fst,
      ∃ addr f, k = .target addr f := by
    intro k hk
    rw [List.map_flatMap] at hk
    obtain ⟨x, _, hx⟩ := List.mem_flatMap.mp hk
    obtain ⟨f, rfl⟩ := howner x k hx
    exact ⟨_, f, rfl⟩
  have hkind' : ∀ k ∈ (s.profiles.flatMap Profile.fields).map Prod.fst, ∃ id f, k = .profile id f := by
    intro k hk
    rw [List.map_flatMap] at hk
    obtain ⟨x, _, hx⟩ := List.mem_flatMap.mp hk
    obtain ⟨f, rfl⟩ := hprofile x k hx
    exact ⟨_, f, rfl⟩
  unfold Settings.keys Settings.fields
  rw [List.map_append, List.map_append, List.nodup_append, List.nodup_append]
  refine ⟨⟨by simp, hover, ?_⟩, hids, ?_⟩
  · intro k hk k' hk' heq
    obtain ⟨addr, f, rfl⟩ := hkind k' hk'
    rw [heq] at hk
    simp at hk
  · intro k hk k' hk' heq
    obtain ⟨id, f, rfl⟩ := hkind' k' hk'
    rw [heq] at hk
    rcases List.mem_append.mp hk with hk | hk
    · simp at hk
    · obtain ⟨_, _, hk⟩ := hkind _ hk
      cases hk

theorem value_unique {s : Settings} {k : Key} {v v' : Octets} (h : (k, v) ∈ s.fields)
    (h' : (k, v') ∈ s.fields) : v = v' := by
  have := List.inj_on_of_nodup_map (nodup_keys s) h h' rfl
  exact (Prod.mk.inj this).2

end SnmpLens.Credentials
