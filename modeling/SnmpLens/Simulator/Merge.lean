import SnmpLens.Simulator.Package

/-!
# What a package serves

Four sources are laid over one another: what the model's files write, the interfaces
they declare, what the walks recorded, and the agent's own objects. Put together, every
OID is there once; what is written stands; and what is left of the walks is what nothing
replaces. Where an object stands does not depend on the device, so the one device a
package is checked for says it of all of them.
-/

namespace SnmpLens.Simulator

open Utf8 Strings Prefix Device

variable {φ κ : Type}

/-! ## Once -/

/-- The OIDs of some objects, in order. -/
def oidsOf (objs : List (Object κ)) : List (Option Oid) :=
  objs.map fun o => (parseOID o.oid).toOption

theorem oidsOf_append (a b : List (Object κ)) : oidsOf (a ++ b) = oidsOf a ++ oidsOf b :=
  List.map_append

theorem toOption_of_made {o : Object κ} {e : Entry κ} (h : o.made = some e) :
    (parseOID o.oid).toOption = some e.oid := by
  rw [made_eq h]
  rfl

/-- **What is accepted has every OID once.** -/
theorem nodup_of_acceptable {objs : List (Object κ)} (h : Tree.Acceptable objs) :
    (oidsOf objs).Nodup ∧ ∀ x ∈ oidsOf objs, x.isSome = true := by
  induction objs with
  | nil => exact ⟨.nil, fun x hx => absurd hx (by simp [oidsOf])⟩
  | cons o rest ih =>
      obtain ⟨hone, hrest, hacross⟩ := Tree.acceptable_append.mp (List.singleton_append ▸ h)
      obtain ⟨hnodup, hsome⟩ := ih hrest
      obtain ⟨e, he⟩ := made_of_isSome (hone.made o List.mem_cons_self)
      refine ⟨List.nodup_cons.mpr ⟨fun hmem => ?_, hnodup⟩, fun x hx => ?_⟩
      · obtain ⟨p, hp, heq⟩ := List.mem_map.mp hmem
        obtain ⟨e', he'⟩ := made_of_isSome (hrest.made p hp)
        dsimp only at heq
        rw [toOption_of_made he, toOption_of_made he'] at heq
        have hoid : e.oid = e'.oid := (Option.some.inj heq).symm
        -- read or carried, the one and the other
        cases hn : o.notifyOnly with
        | false =>
            have hin : e ∈ Tree.readable [o] := Tree.mem_readable.mpr ⟨o, List.mem_cons_self, hn, he⟩
            cases hn' : p.notifyOnly with
            | false =>
                have hapart := hacross.apart e hin e' (Tree.mem_readable.mpr ⟨p, hp, hn', he'⟩)
                exact hapart.1 (hoid ▸ List.prefix_refl _)
            | true => exact hacross.right e' (Tree.mem_hidden.mpr ⟨p, hp, hn', he'⟩) e hin hoid.symm
        | true =>
            have hin : e ∈ Tree.hidden [o] := Tree.mem_hidden.mpr ⟨o, List.mem_cons_self, hn, he⟩
            cases hn' : p.notifyOnly with
            | false => exact hacross.left e hin e' (Tree.mem_readable.mpr ⟨p, hp, hn', he'⟩) hoid
            | true => exact hacross.once e hin e' (Tree.mem_hidden.mpr ⟨p, hp, hn', he'⟩) hoid
      · rcases List.mem_cons.mp hx with rfl | hx
        · dsimp only
          rw [toOption_of_made he]
          rfl
        · exact hsome x hx

/-! ## Where objects stand -/

theorem names_columns (name : Nat → Octets) (columns : List (Column κ)) :
    (columns.map (Column.object name)).map Object.oid = (columns.map Prod.fst).map name := by
  rw [List.map_map, List.map_map]
  rfl

theorem numbers_ifColumns (fl : Floats φ κ) (seed : Nat) (f : Iface φ) :
    (ifColumns fl seed f).map Prod.fst = List.range' 1 22 := by
  simp only [ifColumns, List.map_cons, List.map_nil]
  rfl

theorem numbers_ifXColumns (fl : Floats φ κ) (seed : Nat) (f : Iface φ) :
    (ifXColumns fl seed f).map Prod.fst = List.range' 1 19 := by
  simp only [ifXColumns, List.map_cons, List.map_nil]
  rfl

/-- What the objects of one interface are named. -/
def interfaceNames (index : Nat) : List Octets :=
  (List.range' 1 22).map (ifCol index) ++ (List.range' 1 19).map (ifExt index) ++
    [dotted [1, 3, 6, 1, 2, 1, 31, 1, 2, 1, 3, 0, index],
      dotted [1, 3, 6, 1, 2, 1, 31, 1, 2, 1, 3, index, 0]]

theorem names_addInterface (fl : Floats φ κ) (seed : Nat) (f : Iface φ) :
    (addInterface fl seed f).map Object.oid = interfaceNames f.index := by
  unfold addInterface
  rw [List.map_append, List.map_append, names_columns, names_columns, numbers_ifColumns,
    numbers_ifXColumns]
  rfl

/-- What the objects of some interfaces are named. -/
def interfacesNames (indexes : List Nat) : List Octets :=
  dotted [1, 3, 6, 1, 2, 1, 2, 1, 0] :: (indexes.flatMap interfaceNames ++
    [dotted [1, 3, 6, 1, 2, 1, 31, 1, 5, 0], dotted [1, 3, 6, 1, 2, 1, 31, 1, 6, 0]])

theorem names_addInterfaces (fl : Floats φ κ) (seed : Nat) (ifs : List (Iface φ)) :
    (addInterfaces fl seed ifs).map Object.oid = interfacesNames (ifs.map Iface.index) := by
  have hone : ifs.flatMap (fun f => (addInterface fl seed f).map Object.oid)
      = ifs.flatMap fun f => interfaceNames f.index :=
    List.flatMap_congr fun f _ => names_addInterface fl seed f
  unfold addInterfaces interfacesNames
  rw [List.map_cons, List.map_append, List.map_flatMap, List.flatMap_map, hone]
  rfl

theorem index_mac (f : Iface φ) (mac : Octets) : ({ f with mac } : Iface φ).index = f.index := rfl

theorem index_withMAC (seed : Nat) (f : Iface φ) : (f.withMAC seed).index = f.index := by
  unfold Iface.withMAC
  split
  · rfl
  · exact index_mac f _

/-- What the objects of a compiled object are named. -/
def CompiledObject.names (c : CompiledObject κ) : List Octets :=
  if c.instances.isEmpty then [c.oid]
  else c.instances.map fun inst => Substring.replaceAll placeholder inst c.oid

theorem names_made (seed k : Nat) (c : CompiledObject κ) :
    (c.made seed k).map Object.oid = c.names := by
  unfold CompiledObject.made CompiledObject.names
  dsimp only
  split
  · rfl
  · conv_rhs => rw [← List.zipIdx_map_fst 0 c.instances, List.map_map]
    rw [List.map_map]
    rfl

theorem names_addSystem (fl : Floats φ κ) (id : Identity) (sys : SystemGroup) :
    (addSystem fl id sys).map Object.oid
      = (List.range' 1 7).map fun n => dotted (oidSysGroup ++ [n, 0]) := by
  simp only [addSystem, List.map_cons, List.map_nil]
  rfl

/-- **What a model's files make is named whatever the device is.** -/
theorem names_written (fl : Floats φ κ) (c : CustomModel φ κ) (id : Identity) :
    (c.written fl id).map Object.oid =
      (List.range' 1 7).map (fun n => dotted (oidSysGroup ++ [n, 0])) ++
        (if c.ifs.isEmpty then [] else interfacesNames (c.ifs.map Iface.index)) ++
        c.objs.flatMap CompiledObject.names := by
  have hobjs : (c.objs.zipIdx.flatMap fun p => p.1.made id.seed p.2).map Object.oid
      = c.objs.flatMap CompiledObject.names := by
    conv_rhs => rw [← List.zipIdx_map_fst 0 c.objs, List.flatMap_map]
    rw [List.map_flatMap]
    exact List.flatMap_congr fun p _ => names_made id.seed p.2 p.1
  have hindex : (c.ifs.map (Iface.withMAC id.seed)).map Iface.index = c.ifs.map Iface.index := by
    rw [List.map_map]
    exact List.map_congr_left fun f _ => index_withMAC id.seed f
  unfold CustomModel.written buildCustom
  rw [List.map_append, List.map_append, hobjs, names_addSystem]
  cases c.ifs.isEmpty with
  | true => rw [if_pos rfl, if_pos rfl, List.map_nil]
  | false => rw [if_neg (by simp), if_neg (by simp), names_addInterfaces, hindex]

theorem names_recordedObjects (fl : Floats φ κ) (id : Identity) (entries : List WalkEntry)
    (uptime : Nat) : (recordedObjects fl id entries uptime).map Object.oid
      = entries.map WalkEntry.name := by
  unfold recordedObjects
  rw [List.map_map]
  have hname : (Object.oid ∘ fun p : WalkEntry × Nat => ({
      oid := p.1.name, type := p.1.typ
      value := some (recordedReading fl id.seed uptime p.2 p.1) } : Object κ))
        = WalkEntry.name ∘ Prod.fst := rfl
  exact (congrArg (List.map · _) hname).trans (by rw [← List.map_map, List.zipIdx_map_fst])

theorem oidsOf_congr {a b : List (Object κ)} (h : a.map Object.oid = b.map Object.oid) :
    oidsOf a = oidsOf b := by
  have hmap : ∀ l : List (Object κ),
      oidsOf l = (l.map Object.oid).map fun s => (parseOID s).toOption := by
    intro l
    rw [List.map_map]
    rfl
  rw [hmap, hmap, h]

theorem oids_build (fl : Floats φ κ) (c : CustomModel φ κ) (id id' : Identity) :
    oidsOf (c.build fl id) = oidsOf (c.build fl id') := by
  refine oidsOf_congr ?_
  unfold CustomModel.build
  rw [List.map_append, List.map_append, names_recordedObjects, names_recordedObjects, names_written,
    names_written]

theorem oidsOf_agentObjects (stats : Statistics κ) (v3 : Bool) (engineID : Octets) (boots : Nat)
    (authenTraps : Bool) :
    oidsOf (agentObjects stats v3 engineID boots authenTraps) = (agentOids v3).map some := by
  have hall : ∀ {gs : List (Object κ)} {os : List Oid}, (∀ o ∈ os, o ∈ agentOids true) →
      List.Forall₂ NamedBy gs os → oidsOf gs = os.map some := by
    intro gs os hos h
    induction h with
    | nil => rfl
    | @cons g o gs os hg _ ih =>
        have hparse := parse_of_namedBy (hos o List.mem_cons_self) hg
        unfold oidsOf at ih ⊢
        rw [List.map_cons, List.map_cons, ih fun p hp => hos p (List.mem_cons_of_mem o hp), hparse]
        rfl
  exact hall (fun _ => agentOids_mono) (agentObjects_named ..)

theorem agentOids_sublist (v3 : Bool) : (agentOids v3).Sublist (agentOids true) := by
  cases v3 <;> decide

/-! ## What is left of the walks -/

theorem systemScalar_isSome_iff {o : Oid} :
    (systemScalar o).isSome = true ↔ ∃ n, 1 ≤ n ∧ n ≤ 7 ∧ o = oidSysGroup ++ [n, 0] := by
  unfold systemScalar
  constructor
  · intro h
    split at h
    · rename_i hshape
      obtain ⟨hlen, hpre, hlast⟩ := hshape
      obtain ⟨rest, rfl⟩ := Oid.hasPrefix_iff.mp hpre
      rw [List.length_append] at hlen
      match rest with
      | [n, m] =>
          obtain rfl : m = 0 := by simpa using hlast
          have hn : 1 ≤ n ∧ n ≤ 7 := by simpa using h
          exact ⟨n, hn.1, hn.2, rfl⟩
      | [] | [_] | _ :: _ :: _ :: _ => exact absurd hlen (by simp)
    · cases h
  · rintro ⟨n, hlow, hhigh, rfl⟩
    have hpre : Oid.hasPrefix (oidSysGroup ++ [n, 0]) oidSysGroup = true :=
      Oid.hasPrefix_iff.mpr (List.prefix_append _ _)
    rw [if_pos ⟨by simp, hpre, by simp⟩]
    simp [hlow, hhigh]

/-- **What `settle` keeps**: what is not the agent's, and none of the seven scalars. -/
theorem settleFrom_kept (s : Settled) (entries : List WalkEntry) :
    (settleFrom s entries).kept = s.kept ++
      entries.filter fun e => !below agentSubtrees e.oid && (systemScalar e.oid).isNone := by
  induction entries generalizing s with
  | nil => simp [settleFrom]
  | cons e rest ih =>
      unfold settleFrom
      dsimp only
      by_cases hown : below agentSubtrees e.oid = true
      · rw [if_pos hown, ih, List.filter_cons_of_neg (by simp [hown])]
      · rw [if_neg hown]
        split
        · rename_i hthree
          rw [ih, List.filter_cons_of_neg (by simp [hthree])]
        · rename_i n hn
          rw [ih, List.filter_cons_of_neg (by simp [hn])]
        · rename_i hnone
          rw [ih, List.filter_cons_of_pos (by simp [hnone, hown])]
          simp

theorem mem_join {recorded entries : List WalkEntry} {e : WalkEntry}
    (h : e ∈ join recorded entries) : e ∈ recorded ∨ e ∈ entries := by
  unfold join at h
  induction entries generalizing recorded with
  | nil => exact .inl h
  | cons x rest ih =>
      rw [List.foldl_cons] at h
      rcases ih h with h | h
      · split at h
        · exact .inl h
        · rcases List.mem_append.mp h with h | h
          · exact .inl h
          · exact .inr (List.mem_singleton.mp h ▸ List.mem_cons_self)
      · exact .inr (List.mem_cons_of_mem x h)

variable {files : List (PackageFile φ)} {letter : Char → Bool}

theorem named_readFiles {model model' : Option (CustomFile φ)} {parts parts' : PackageParts φ}
    (hparts : ∀ e ∈ parts.recorded, e.Named)
    (h : readFiles letter model parts files = .ok (model', parts')) :
    ∀ e ∈ parts'.recorded, e.Named := by
  induction files generalizing model parts with
  | nil =>
      obtain ⟨_, rfl⟩ := Prod.mk.inj (Except.ok.inj h)
      exact hparts
  | cons file rest ih =>
      unfold readFiles at h
      split at h
      · cases h
      · rename_i model₁ parts₁ hfile
        refine ih ?_ h
        unfold readFile at hfile
        split at hfile
        · split at hfile
          · cases hfile
          · obtain ⟨_, rfl⟩ := Prod.mk.inj (Except.ok.inj hfile)
            exact hparts
        · obtain ⟨_, rfl⟩ := Prod.mk.inj (Except.ok.inj hfile)
          exact hparts
        · obtain ⟨_, rfl⟩ := Prod.mk.inj (Except.ok.inj hfile)
          exact hparts
        · split at hfile
          · cases hfile
          · rename_i w hw
            split at hfile
            · split at hfile
              · cases hfile
              · cases hfile
            · dsimp only at hfile
              split at hfile
              · cases hfile
              · obtain ⟨_, rfl⟩ := Prod.mk.inj (Except.ok.inj hfile)
                intro e he
                rcases mem_join he with he | he
                · exact hparts e he
                · exact named_readWalk hw e he

/-- What the walks of a package recorded between them. -/
def walksOf (letter : Char → Bool) (files : List (PackageFile φ)) : List WalkEntry :=
  match readFiles letter none {} files with
  | .ok (_, parts) => parts.recorded
  | .error _ => []

theorem named_walksOf :
    ∀ e ∈ walksOf letter files, e.Named := by
  unfold walksOf
  split
  · rename_i hread
    exact named_readFiles (fun e he => absurd he (by simp)) hread
  · exact fun e he => absurd he (by simp)

/-- What a package does not serve of its walks, `oids` being what is written. -/
def Replaced (oids : List (Option Oid)) (interfaces : Bool) (o : Oid) : Prop :=
  below agentSubtrees o = true ∨ (∃ n, 1 ≤ n ∧ n ≤ 7 ∧ o = oidSysGroup ++ [n, 0]) ∨
    some o ∈ oids ∨ (interfaces = true ∧ below ifMIBSubtrees o = true)

theorem mem_madeNames {written : List (Object κ)} {e : WalkEntry} (he : e.Named) :
    e.name ∈ madeNames written ↔ some e.oid ∈ oidsOf written := by
  have hfits := Oid.fits_of_parseArcs (Oid.parseArcs_of_parseOID he.1)
  unfold madeNames oidsOf
  rw [List.mem_filterMap, List.mem_map]
  refine exists_congr fun o => and_congr_right fun _ => ?_
  cases ho : parseOID o.oid with
  | error err => simp [Except.toOption]
  | ok id =>
      have hid := Oid.fits_of_parseArcs (Oid.parseArcs_of_parseOID ho)
      simp only [Except.toOption, Option.map_some, Option.some.injEq]
      rw [he.2]
      exact ⟨fun h => Oid.string_inj hid hfits h, fun h => h ▸ rfl⟩

/-! ## An accepted package -/

variable {fl : Floats φ κ} {c : CustomModel φ κ}

theorem recorded_of_model {f : CustomFile φ} {parts : PackageParts φ} (h : f.model fl parts = .ok c)
    :
    c.recorded = parts.unwritten (c.written fl modelCheck) (!c.ifs.isEmpty) := by
  unfold CustomFile.model at h
  simp only [bind, Except.bind] at h
  repeat' split at h
  all_goals first
    | exact absurd h (by simp)
    | obtain rfl := Except.ok.inj h
      rfl

/-- What is known of a package that is accepted. -/
theorem accepted {stats : Statistics κ} (h : parseCustomPackage letter fl stats files = .ok c) :
    (∃ parts : PackageParts φ, parts.recorded = walksOf letter files ∧
      c.recorded = parts.settle.unwritten (c.written fl modelCheck) (!c.ifs.isEmpty)) ∧
      Tree.Acceptable (c.build fl modelCheck ++
        agentObjects stats true [0x80, 0, 0, 0, 0] 1 false) := by
  unfold parseCustomPackage at h
  split at h
  · cases h
  · cases h
  · rename_i f parts hread
    have hwalks : parts.recorded = walksOf letter files := by
      unfold walksOf
      rw [hread]
    split at h
    · cases h
    · rename_i c' hcompile
      obtain rfl := Except.ok.inj h
      unfold CustomFile.compile at hcompile
      split at hcompile
      · cases hcompile
      · cases hmodel : f.model fl parts.settle with
        | error err =>
            rw [hmodel] at hcompile
            exact absurd hcompile (by simp [bind, Except.bind])
        | ok c₁ =>
            rw [hmodel] at hcompile
            simp only [bind, Except.bind] at hcompile
            split at hcompile
            · cases hcompile
            · rename_i t htree
              split at hcompile
              · cases hcompile
              · obtain rfl := Except.ok.inj hcompile
                exact ⟨⟨parts, hwalks, recorded_of_model hmodel⟩,
                  Tree.newTree_isOk_iff.mp (by rw [htree]; rfl)⟩

/-- **What is served of the walks is what nothing replaces.** -/
theorem mem_recorded_iff {stats : Statistics κ}
    (h : parseCustomPackage letter fl stats files = .ok c) (id : Identity) (e : WalkEntry) :
    e ∈ c.recorded ↔ e ∈ walksOf letter files ∧
      ¬ Replaced (oidsOf (c.written fl id)) (!c.ifs.isEmpty) e.oid := by
  obtain ⟨⟨parts, hwalks, hrecorded⟩, _⟩ := accepted h
  have hoids : oidsOf (c.written fl id) = oidsOf (c.written fl modelCheck) :=
    oidsOf_congr ((names_written fl c id).trans (names_written fl c modelCheck).symm)
  have hsettle : parts.settle.recorded = (walksOf letter files).filter fun e =>
      !below agentSubtrees e.oid && (systemScalar e.oid).isNone := by
    rw [← hwalks]
    exact (settleFrom_kept _ _).trans (List.nil_append _)
  rw [hrecorded, hoids]
  unfold PackageParts.unwritten Replaced
  rw [List.mem_filter, hsettle, List.mem_filter, and_assoc]
  refine and_congr_right fun hwalk => ?_
  rw [← systemScalar_isSome_iff, ← mem_madeNames (named_walksOf e hwalk)]
  rw [← List.contains_iff_mem]
  cases below agentSubtrees e.oid <;> cases systemScalar e.oid <;>
    cases (madeNames (c.written fl modelCheck)).contains e.name <;> cases c.ifs.isEmpty <;> simp

/-- **What a package serves**, of a device and with its agent. -/
structure Served (fl : Floats φ κ) (c : CustomModel φ κ) (walks : List WalkEntry) (id : Identity)
    (agent : List (Object κ)) : Prop where
  /-- Every OID once. -/
  once : (oidsOf (c.build fl id ++ agent)).Nodup ∧
    ∀ x ∈ oidsOf (c.build fl id ++ agent), x.isSome = true
  /-- What is written is there, and nothing else is at its OID, recorded or not. -/
  written : ∀ w ∈ c.written fl id, w ∈ c.build fl id ++ agent ∧
    ∀ o ∈ c.build fl id ++ agent, (parseOID o.oid).toOption = (parseOID w.oid).toOption → o = w
  /-- What else is there was recorded, and nothing replaces it. -/
  recorded : ∀ o ∈ c.build fl id ++ agent, o ∈ c.written fl id ∨ o ∈ agent ∨
    ∃ e ∈ walks, parseOID o.oid = .ok e.oid ∧ o.type = e.typ ∧
      below agentSubtrees e.oid = false ∧ (∀ n, 1 ≤ n → n ≤ 7 → e.oid ≠ oidSysGroup ++ [n, 0]) ∧
      (c.ifs ≠ [] → below ifMIBSubtrees e.oid = false)
  /-- And all of that is there. -/
  kept : ∀ e ∈ walks, ¬ Replaced (oidsOf (c.written fl id)) (!c.ifs.isEmpty) e.oid →
    ∃ o ∈ c.build fl id, parseOID o.oid = .ok e.oid ∧ o.type = e.typ

theorem oidsOf_served (fl : Floats φ κ) (c : CustomModel φ κ) (id : Identity)
    (stats : Statistics κ) (v3 : Bool) (engineID : Octets) (boots : Nat) (authenTraps : Bool) :
    (oidsOf (c.build fl id ++ agentObjects stats v3 engineID boots authenTraps)).Sublist
      (oidsOf (c.build fl modelCheck ++ agentObjects stats true [0x80, 0, 0, 0, 0] 1 false)) := by
  rw [oidsOf_append, oidsOf_append, oids_build fl c id modelCheck, oidsOf_agentObjects,
    oidsOf_agentObjects]
  exact (List.Sublist.refl _).append ((agentOids_sublist v3).map some)

theorem mem_recordedObjects {id : Identity} {entries : List WalkEntry} {uptime : Nat} :
    (∀ o ∈ recordedObjects fl id entries uptime, ∃ e ∈ entries, o.oid = e.name ∧ o.type = e.typ) ∧
      ∀ e ∈ entries, ∃ o ∈ recordedObjects fl id entries uptime, o.oid = e.name ∧ o.type = e.typ := by
  unfold recordedObjects
  constructor
  · intro o ho
    obtain ⟨p, hp, rfl⟩ := List.mem_map.mp ho
    exact ⟨p.1, List.mem_of_getElem? (List.mem_zipIdx_iff_getElem?.mp hp), rfl, rfl⟩
  · intro e he
    obtain ⟨i, hi, hget⟩ := List.mem_iff_getElem.mp he
    have hmem : (e, i) ∈ entries.zipIdx :=
      List.mem_zipIdx_iff_getElem?.mpr (by rw [List.getElem?_eq_getElem hi, hget])
    exact ⟨_, List.mem_map_of_mem hmem, rfl, rfl⟩

/-- Values that stand still. -/
def still : Floats Unit Unit where
  uptime := ⟨fun _ => .uint32 0, fun t => t == .timeTicks⟩
  secondsUp := ⟨fun _ => .uint32 0, fun t => t == .gauge32⟩
  dateAndTime := ⟨fun _ => .bytes [], fun t => t == .octetString⟩
  rateOk _ := true
  bits _ := some 1000000000
  gauge _ t := if t = .gauge32 then some ⟨fun _ _ => .uint32 0, fun t => t == .gauge32⟩ else none
  counter _ t := if t = .counter32 then some ⟨fun _ _ => .uint32 0, fun t => t == .counter32⟩ else none
  ifCounter _ _ wide :=
    if wide then ⟨fun _ _ => .uint64 0, fun t => t == .counter64⟩
    else ⟨fun _ _ => .uint32 0, fun t => t == .counter32⟩
  recordedCounter wide start _ :=
    if wide then ⟨fun _ _ => .uint64 start, fun t => t == .counter64⟩
    else ⟨fun _ _ => .uint32 start, fun t => t == .counter32⟩

/-- A model with an interface and one object, which the walk recorded too. -/
def recordedRouter : List (PackageFile Unit) :=
  [.model {
      id := octets "router"
      name := octets "Router"
      interfaces := [⟨0, octets "eth0", [], [], 0, 0, none, true, false, (), (), ()⟩]
      objects := [{ oid := octets "1.3.6.1.4.1.8072.1.0", type := octets "Integer"
                    value := some (.number (octets "7")) }] },
    .walk (octets ("1.3.6.1.2.1.1.1.0|4|a router\n1.3.6.1.2.1.1.2.0|6|1.3.6.1.4.1.8072\n" ++
      "1.3.6.1.2.1.2.1.0|2|3\n1.3.6.1.2.1.11.1.0|65|9\n1.3.6.1.4.1.8072.1.0|2|1\n" ++
      "1.3.6.1.4.1.8072.2.0|2|2\n"))]

end SnmpLens.Simulator
