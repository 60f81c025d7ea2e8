import SnmpLens.Simulator.Device

/-!
# A device that validates starts, but for one kind

What starts is made of the model's objects, the device's own values over them, and the
agent's objects behind. The model's and the agent's make a tree together; the device's
own values are checked against the model's, and refused below what the agent answers.
What is left is a value above the agent's objects, where the model has none.
-/

namespace SnmpLens.Simulator

open Utf8 Strings Prefix

variable {κ : Type}

/-! ## Values of a device's own -/

theorem object_ok {o : Override} {obj : Object κ} (h : o.object κ = .ok obj) :
    ∃ id t v, parseOID o.oid = .ok id ∧ agentSubtrees.any id.hasPrefix = false ∧
      checkValue t v = true ∧
      obj = { oid := id.string, type := t, value := some (const κ v) } := by
  unfold Override.object at h
  cases hid : parseOID o.oid with
  | error err =>
      rw [hid] at h
      cases h
  | ok id =>
      rw [hid] at h
      dsimp only at h
      split at h
      · cases h
      · rename_i hown
        split at h
        · cases h
        · rename_i t _
          split at h
          · cases h
          · split at h
            · cases h
            · rename_i v _
              split at h
              · rename_i hcheck
                exact ⟨id, t, v, rfl, by simpa using hown, hcheck, (Except.ok.inj h).symm⟩
              · cases h

theorem forall₂_of_compileLoop {ovs : List Override} {out own : List (Object κ)}
    (h : compileLoop out ovs = .ok own) :
    ∃ new, own = out ++ new ∧ List.Forall₂ (fun o obj => o.object κ = .ok obj) ovs new := by
  induction ovs generalizing out with
  | nil => exact ⟨[], by rw [List.append_nil]; exact (Except.ok.inj h).symm, .nil⟩
  | cons o rest ih =>
      unfold compileLoop at h
      split at h
      · cases h
      · rename_i obj hobj
        split at h
        · cases h
        · obtain ⟨new, rfl, hnew⟩ := ih h
          exact ⟨obj :: new, by simp, .cons hobj hnew⟩

theorem forall₂_of_compileOverrides {ovs : List Override} {own : List (Object κ)}
    (h : compileOverrides κ ovs = .ok own) :
    List.Forall₂ (fun o obj => o.object κ = .ok obj) ovs own := by
  unfold compileOverrides at h
  split at h
  · cases h
  · obtain ⟨new, rfl, hnew⟩ := forall₂_of_compileLoop h
    exact hnew

/-! ## In place of the model's, or beside them -/

/-- One object stands where the other did: at its OID, and read or carried as it was. -/
def Stands (o x : Object κ) : Prop :=
  x.notifyOnly = o.notifyOnly ∧ ∃ id, parseOID o.oid = .ok id ∧ parseOID x.oid = .ok id

variable {objs : List (Object κ)}

theorem lastAt_some {name : Octets} {i : Nat} (h : lastAt objs name = some i) :
    ∃ o id, objs[i]? = some o ∧ parseOID o.oid = .ok id ∧ id.string = name := by
  obtain ⟨⟨o, j⟩, hfind, rfl⟩ := Option.map_eq_some_iff.mp h
  have hmem := List.mem_reverse.mp (List.mem_of_find?_eq_some hfind)
  have hp := List.find?_some hfind
  refine ⟨o, ?_⟩
  cases hid : parseOID o.oid with
  | error err =>
      simp only [hid] at hp
      cases hp
  | ok id =>
      simp only [hid, beq_iff_eq] at hp
      exact ⟨id, List.mem_zipIdx_iff_getElem?.mp hmem, rfl, hp⟩

theorem lastAt_none {name : Octets} :
    lastAt objs name = none ↔ ∀ o ∈ objs, ∀ id, parseOID o.oid = .ok id → id.string ≠ name := by
  unfold lastAt
  rw [Option.map_eq_none_iff, List.find?_eq_none]
  constructor
  · intro h o ho id hid hname
    obtain ⟨i, hi, hget⟩ := List.mem_iff_getElem.mp ho
    have hmem : (o, i) ∈ objs.zipIdx.reverse :=
      List.mem_reverse.mpr (List.mem_zipIdx_iff_getElem?.mpr (by rw [List.getElem?_eq_getElem hi, hget]))
    have := h (o, i) hmem
    simp only [hid] at this
    exact this (by simpa using hname)
  · intro h p hp
    obtain ⟨o, i⟩ := p
    have hget := List.mem_zipIdx_iff_getElem?.mp (List.mem_reverse.mp hp)
    have ho : o ∈ objs := List.mem_of_getElem? hget
    cases hid : parseOID o.oid with
    | error err => simp
    | ok id => simpa using h o ho id hid

variable {objs out : List (Object κ)}

theorem forall₂_modify {i : Nat} {f : Object κ → Object κ} (h : List.Forall₂ Stands objs out)
    (hf : ∀ o x, objs[i]? = some o → Stands o x → Stands o (f x)) :
    List.Forall₂ Stands objs (out.modify i f) := by
  induction h generalizing i with
  | nil => simp
  | @cons o x objs out hox hrest ih =>
      cases i with
      | zero =>
          rw [List.modify_zero_cons]
          exact .cons (hf o x rfl hox) hrest
      | succ i =>
          rw [List.modify_succ_cons]
          exact .cons hox (ih fun o x ho hs => hf o x ho hs)

theorem modify_append {out more : List (Object κ)} {i : Nat} (f : Object κ → Object κ)
    (h : i < out.length) : (out ++ more).modify i f = out.modify i f ++ more := by
  induction out generalizing i with
  | nil => cases h
  | cons x out ih =>
      cases i with
      | zero => rfl
      | succ i =>
          rw [List.cons_append, List.modify_succ_cons, List.modify_succ_cons,
            ih (Nat.lt_of_succ_lt_succ h), List.cons_append]

/-- **What `withOverrides` makes of the model's objects**: as many, each where it was, and behind
them the values no object was there for. -/
theorem overlay_eq {objs ovs : List (Object κ)}
    (hovs : ∀ ov ∈ ovs, ∃ id, parseOID ov.oid = .ok id ∧ ov.oid = id.string)
    {out more : List (Object κ)} (h : List.Forall₂ Stands objs out) :
    ∃ last, overlay objs (out ++ more) ovs
        = last ++ (more ++ ovs.filter fun ov => (lastAt objs ov.oid).isNone) ∧
      List.Forall₂ Stands objs last := by
  induction ovs generalizing out more with
  | nil => exact ⟨out, by simp [overlay], h⟩
  | cons ov rest ih =>
      have hrest := fun x hx => hovs x (List.mem_cons_of_mem ov hx)
      unfold overlay
      cases hat : lastAt objs ov.oid with
      | none =>
          dsimp only
          obtain ⟨last, heq, hlast⟩ := @ih hrest out (more ++ [ov]) h
          refine ⟨last, ?_, hlast⟩
          rw [List.append_assoc, heq, List.filter_cons_of_pos (by rw [hat]; rfl)]
          simp
      | some i =>
          dsimp only
          obtain ⟨o, id, hget, hid, hname⟩ := lastAt_some hat
          have hi : i < out.length := by
            rw [← h.length_eq]
            exact (List.getElem?_eq_some_iff.mp hget).1
          rw [modify_append _ hi, List.filter_cons_of_neg (by rw [hat]; simp)]
          refine ih hrest (forall₂_modify h fun o' x ho' hs => ?_)
          obtain rfl := Option.some.inj (hget.symm.trans ho')
          exact ⟨hs.1, id, hid, by rw [← hname]; exact Oid.parseOID_string hid⟩

theorem made_eq {o : Object κ} {e : Entry κ} (h : o.made = some e) : parseOID o.oid = .ok e.oid := by
  unfold Object.made at h
  split at h
  · rename_i id value hid _
    split at h
    · obtain rfl := Option.some.inj h
      exact hid
    · cases h
  · cases h

theorem made_of_isSome {o : Object κ} (h : o.made.isSome = true) : ∃ e, o.made = some e :=
  Option.isSome_iff_exists.mp h

namespace Tree

/-- What stands where others did is read, and carried, at the same OIDs. -/
theorem oids_of_stands (h : List.Forall₂ Stands objs out) (hobjs : ∀ o ∈ objs, o.made.isSome = true)
    (hout : ∀ o ∈ out, o.made.isSome = true) :
    (readable out).map Entry.oid = (readable objs).map Entry.oid ∧
      (hidden out).map Entry.oid = (hidden objs).map Entry.oid := by
  induction h with
  | nil => exact ⟨rfl, rfl⟩
  | @cons o x objs out hox _ ih =>
      obtain ⟨e, he⟩ := made_of_isSome (hobjs o List.mem_cons_self)
      obtain ⟨e', he'⟩ := made_of_isSome (hout x List.mem_cons_self)
      obtain ⟨hread, hcarry⟩ := ih (fun y hy => hobjs y (List.mem_cons_of_mem o hy))
        fun y hy => hout y (List.mem_cons_of_mem x hy)
      obtain ⟨hnotify, id, hid, hid'⟩ := hox
      have hoid : e'.oid = e.oid := by
        have h := Except.ok.inj ((made_eq he).symm.trans hid)
        have h' := Except.ok.inj ((made_eq he').symm.trans hid')
        rw [h, h']
      rw [readable_cons he, readable_cons he', hidden_cons he, hidden_cons he', hnotify]
      cases o.notifyOnly with
      | true => exact ⟨hread, by simp [hoid, hcarry]⟩
      | false => exact ⟨by simp [hoid, hread], hcarry⟩

theorem mem_readable {objects : List (Object κ)} {e : Entry κ} :
    e ∈ readable objects ↔ ∃ o ∈ objects, o.notifyOnly = false ∧ o.made = some e := by
  unfold readable
  simp only [List.mem_filterMap, List.mem_filter, Bool.not_eq_true', and_assoc]

theorem mem_hidden {objects : List (Object κ)} {e : Entry κ} :
    e ∈ hidden objects ↔ ∃ o ∈ objects, o.notifyOnly = true ∧ o.made = some e := by
  unfold hidden
  simp only [List.mem_filterMap, List.mem_filter, and_assoc]

theorem across_append_left {a a' b : List (Object κ)} :
    Across (a ++ a') b ↔ Across a b ∧ Across a' b := by
  constructor
  · intro h
    have hr := h.apart
    have ho := h.once
    have hl := h.left
    have hb := h.right
    simp only [readable_append, hidden_append, List.mem_append, or_imp, forall_and] at hr ho hl hb
    exact ⟨⟨hr.1, ho.1, hl.1, hb.1⟩, ⟨hr.2, ho.2, hl.2, hb.2⟩⟩
  · rintro ⟨h, h'⟩
    refine ⟨?_, ?_, ?_, ?_⟩ <;>
      simp only [readable_append, hidden_append, List.mem_append, or_imp, forall_and]
    · exact ⟨h.apart, h'.apart⟩
    · exact ⟨h.once, h'.once⟩
    · exact ⟨h.left, h'.left⟩
    · exact ⟨h.right, h'.right⟩

theorem across_of_oids {a a' b : List (Object κ)}
    (hread : (readable a').map Entry.oid = (readable a).map Entry.oid)
    (hcarry : (hidden a').map Entry.oid = (hidden a).map Entry.oid) (h : Across a b) :
    Across a' b := by
  have hr : ∀ x ∈ readable a', ∃ y ∈ readable a, y.oid = x.oid := fun x hx =>
    List.mem_map.mp (hread ▸ List.mem_map_of_mem hx)
  have hh : ∀ x ∈ hidden a', ∃ y ∈ hidden a, y.oid = x.oid := fun x hx =>
    List.mem_map.mp (hcarry ▸ List.mem_map_of_mem hx)
  refine ⟨?_, ?_, ?_, ?_⟩
  · intro x hx y hy
    obtain ⟨x', hx', heq⟩ := hr x hx
    exact heq ▸ h.apart x' hx' y hy
  · intro x hx y hy
    obtain ⟨x', hx', heq⟩ := hh x hx
    exact heq ▸ h.once x' hx' y hy
  · intro x hx y hy
    obtain ⟨x', hx', heq⟩ := hh x hx
    exact heq ▸ h.left x' hx' y hy
  · intro x hx y hy
    obtain ⟨y', hy', heq⟩ := hr y hy
    exact heq ▸ h.right x hx y' hy'

end Tree

/-- **What is accepted is a matter of where the objects stand**, and of each by itself. -/
theorem acceptable_of_stands (h : List.Forall₂ Stands objs out) (ha : Tree.Acceptable objs)
    (hout : ∀ o ∈ out, o.made.isSome = true) : Tree.Acceptable out := by
  obtain ⟨hread, hcarry⟩ := Tree.oids_of_stands h ha.made hout
  refine ⟨hout, hread ▸ ha.apart, hcarry ▸ ha.once, fun e he hmem => ?_⟩
  rw [hread] at hmem
  obtain ⟨x, hx, heq⟩ := List.mem_map.mp (hcarry ▸ List.mem_map_of_mem he)
  exact ha.nowhere x hx (heq ▸ hmem)

/-! ## The agent's own objects -/

/-- The OIDs of the agent's own objects. -/
def agentOids (v3 : Bool) : List Oid :=
  let out := (snmpCounters ++ [30, 31, 32]).map fun n => snmpGroup ++ [n, 0]
  if v3 then
    out ++ [[1, 3, 6, 1, 6, 3, 10, 2, 1, 1, 0], [1, 3, 6, 1, 6, 3, 10, 2, 1, 2, 0],
      [1, 3, 6, 1, 6, 3, 10, 2, 1, 3, 0], [1, 3, 6, 1, 6, 3, 10, 2, 1, 4, 0]] ++
      reportCounters ++ [[1, 3, 6, 1, 6, 3, 12, 1, 4, 0]]
  else out

theorem parse_agentOids :
    ∀ o ∈ agentOids true, parseOID (dotted o) = .ok o ∧ parseOID o.string = .ok o := by
  have hall : ∀ o ∈ agentOids true, o.take 2 = [1, 3] ∧ o.length ≤ maxArcs ∧ ∀ a ∈ o, a < 2 ^ 32 := by
    decide
  intro o ho
  obtain ⟨hstart, hlength, hlt⟩ := hall o ho
  have hne : o ≠ [] := by
    rintro rfl
    cases hstart
  have hfits : o.Fits := ⟨hne, hlength, hlt⟩
  exact ⟨Oid.parseOID_of_internet hstart (Oid.parseArcs_dotted hfits),
    Oid.parseOID_of_internet hstart (Oid.parseArcs_string hfits)⟩

theorem agentOids_below :
    ∀ o ∈ agentOids true, ∃ s ∈ agentSubtrees, s <+: o := by
  decide

theorem agentOids_mono {v3 : Bool} {o : Oid} (h : o ∈ agentOids v3) : o ∈ agentOids true := by
  cases v3 with
  | true => exact h
  | false => exact List.mem_append_left _ (List.mem_append_left _ (List.mem_append_left _ h))

/-- An object a request reads, named by an OID in one of two ways. -/
def NamedBy (g : Object κ) (o : Oid) : Prop :=
  g.notifyOnly = false ∧ (g.oid = dotted o ∨ g.oid = Oid.string o)

theorem agentObjects_named (stats : Statistics κ) (v3 : Bool) (engineID : Octets) (boots : Nat)
    (authenTraps : Bool) :
    List.Forall₂ NamedBy (agentObjects stats v3 engineID boots authenTraps) (agentOids v3) := by
  have hmap : ∀ {α : Type} (f : α → Object κ) (o : α → Oid), (∀ n, NamedBy (f n) (o n)) →
      ∀ ns : List α, List.Forall₂ NamedBy (ns.map f) (ns.map o) := by
    intro α f o h ns
    induction ns with
    | nil => exact .nil
    | cons n ns ih => exact .cons (h n) ih
  unfold agentObjects agentOids
  rw [List.map_append]
  have hsnmp := List.rel_append
    (hmap (fun n => counted stats (dotted (snmpGroup ++ [n, 0])) (snmpGroup ++ [n, 0]))
      (fun n => snmpGroup ++ [n, 0]) (fun n => ⟨rfl, .inl rfl⟩) snmpCounters)
    (.cons ⟨rfl, .inl rfl⟩ (.cons ⟨rfl, .inl rfl⟩ (.cons ⟨rfl, .inl rfl⟩ .nil)) :
      List.Forall₂ NamedBy
        [{ oid := dotted (snmpGroup ++ [30, 0])
           type := .integer
           value := some (const κ (.int (if authenTraps then 1 else 2))) },
          counted stats (dotted (snmpGroup ++ [31, 0])) (snmpGroup ++ [31, 0]),
          counted stats (dotted (snmpGroup ++ [32, 0])) (snmpGroup ++ [32, 0])]
        ([30, 31, 32].map fun n => snmpGroup ++ [n, 0]))
  cases v3 with
  | false => exact hsnmp
  | true =>
      have hreports := hmap (fun id => counted stats id.string id) id (fun o => ⟨rfl, .inr rfl⟩)
        reportCounters
      rw [List.map_id] at hreports
      refine List.rel_append (List.rel_append (List.rel_append hsnmp ?_) hreports) ?_
      · exact .cons ⟨rfl, .inl rfl⟩ (.cons ⟨rfl, .inl rfl⟩ (.cons ⟨rfl, .inl rfl⟩
          (.cons ⟨rfl, .inl rfl⟩ .nil)))
      · exact .cons ⟨rfl, .inr rfl⟩ .nil

theorem parse_of_namedBy {g : Object κ} {o : Oid} (ho : o ∈ agentOids true) (h : NamedBy g o) :
    parseOID g.oid = .ok o := by
  obtain ⟨hdotted, hstring⟩ := parse_agentOids o ho
  rcases h.2 with h | h
  · rw [h, hdotted]
  · rw [h, hstring]

variable {stats : Statistics κ} {engineID : Octets} {authenTraps : Bool} {boots : Nat}

theorem readable_agentObjects {v3 : Bool} {e : Entry κ}
    (h : e ∈ Tree.readable (agentObjects stats v3 engineID boots authenTraps)) :
    e.oid ∈ agentOids v3 := by
  obtain ⟨g, hg, _, hmade⟩ := Tree.mem_readable.mp h
  obtain ⟨o, ho, hname⟩ := right_of_forall₂ (agentObjects_named stats v3 engineID boots authenTraps) hg
  obtain rfl := Except.ok.inj ((made_eq hmade).symm.trans (parse_of_namedBy (agentOids_mono ho) hname))
  exact ho

theorem hidden_agentObjects {v3 : Bool} :
    Tree.hidden (agentObjects stats v3 engineID boots authenTraps) = [] := by
  rw [List.eq_nil_iff_forall_not_mem]
  intro e he
  obtain ⟨g, hg, hcarried, _⟩ := Tree.mem_hidden.mp he
  obtain ⟨o, _, hname⟩ := right_of_forall₂ (agentObjects_named stats v3 engineID boots authenTraps) hg
  rw [hname.1] at hcarried
  cases hcarried

theorem exists_agentObject {v3 : Bool} {o : Oid} (h : o ∈ agentOids v3)
    (hmade : ∀ g ∈ agentObjects stats v3 engineID boots authenTraps, g.made.isSome = true) :
    ∃ e ∈ Tree.readable (agentObjects stats v3 engineID boots authenTraps), e.oid = o := by
  obtain ⟨g, hg, hname⟩ := left_of_forall₂ (agentObjects_named stats v3 engineID boots authenTraps) h
  obtain ⟨e, he⟩ := made_of_isSome (hmade g hg)
  refine ⟨e, Tree.mem_readable.mpr ⟨g, hg, hname.1, he⟩, ?_⟩
  exact Except.ok.inj ((made_eq he).symm.trans (parse_of_namedBy (agentOids_mono h) hname))

theorem made_isSome {o : Object κ} {id : Oid} {r : Reading κ} (hid : parseOID o.oid = .ok id)
    (hvalue : o.value = some r) (hcheck : r.check o.type = true) : o.made.isSome = true := by
  unfold Object.made
  rw [hid, hvalue]
  dsimp only
  rw [if_pos hcheck]
  rfl

theorem made_agentObjects {v3 : Bool} (hboots : boots < 2 ^ 31) :
    ∀ g ∈ agentObjects stats v3 engineID boots authenTraps, g.made.isSome = true := by
  intro g hg
  obtain ⟨o, ho, hname⟩ := right_of_forall₂ (agentObjects_named stats v3 engineID boots authenTraps) hg
  have hparse := parse_of_namedBy (agentOids_mono ho) hname
  have hcounted : ∀ name id, (counted stats name id) = g → g.made.isSome = true := by
    rintro name id rfl
    exact made_isSome hparse rfl rfl
  have hgroup : g ∈ agentObjects stats false engineID boots authenTraps → g.made.isSome = true := by
    intro hg
    rcases List.mem_append.mp hg with hg | hg
    · obtain ⟨n, _, heq⟩ := List.mem_map.mp hg
      exact hcounted _ _ heq
    · rcases List.mem_cons.mp hg with rfl | hg
      · refine made_isSome hparse rfl ?_
        cases authenTraps <;> rfl
      · rcases List.mem_cons.mp hg with rfl | hg
        · exact hcounted _ _ rfl
        · exact hcounted _ _ (List.mem_singleton.mp hg).symm
  cases v3 with
  | false => exact hgroup hg
  | true =>
      rcases List.mem_append.mp hg with hg | hg
      · rcases List.mem_append.mp hg with hg | hg
        · rcases List.mem_append.mp hg with hg | hg
          · exact hgroup hg
          · have hnumber : (const κ (.int boots)).check .integer = true := by
              simp only [const, checkValue, Bool.and_eq_true, decide_eq_true_eq]
              omega
            simp only [engineObjects, List.mem_cons, List.not_mem_nil, or_false] at hg
            rcases hg with rfl | rfl | rfl | rfl
            · exact made_isSome hparse rfl rfl
            · exact @made_isSome _ _ _ (const κ (.int boots)) hparse rfl hnumber
            · exact made_isSome hparse rfl rfl
            · exact made_isSome hparse rfl rfl
        · obtain ⟨n, _, heq⟩ := List.mem_map.mp hg
          exact hcounted _ _ heq
      · exact hcounted _ _ (List.mem_singleton.mp hg).symm

/-- Whatever an agent's engine is, its objects stand where another's do. -/
theorem agentObjects_stand (stats : Statistics κ) (v3 : Bool) (engineID engineID' : Octets)
    (boots boots' : Nat) (authenTraps authenTraps' : Bool) :
    List.Forall₂ Stands (agentObjects stats v3 engineID boots authenTraps)
      (agentObjects stats v3 engineID' boots' authenTraps') := by
  have hboth : ∀ {xs ys : List (Object κ)} {os : List Oid}, (∀ o ∈ os, o ∈ agentOids true) →
      List.Forall₂ NamedBy xs os → List.Forall₂ NamedBy ys os → List.Forall₂ Stands xs ys := by
    intro xs ys os hos hx
    induction hx generalizing ys with
    | nil =>
        intro hy
        cases hy
        exact .nil
    | @cons x o xs os hxo _ ih =>
        intro hy
        cases hy with
        | cons hyo hy =>
            have ho := hos o List.mem_cons_self
            exact .cons ⟨hyo.1.trans hxo.1.symm, o, parse_of_namedBy ho hxo, parse_of_namedBy ho hyo⟩
              (ih (fun p hp => hos p (List.mem_cons_of_mem o hp)) hy)
  exact hboth (fun _ => agentOids_mono) (agentObjects_named ..) (agentObjects_named ..)

/-! ## Starting -/

/-- What the catalogue promises of a model: that, built for any device that gives it numbers it
takes, it makes a tree with the agent's own objects. -/
def Model.Starts (stats : Statistics κ) (m : Model κ) : Prop :=
  ∀ id : Identity, m.checkParams id.params = true →
    ∀ (engineID : Octets) (boots : Nat) (authenTraps : Bool), boots < 2 ^ 31 →
      (Tree.newTree (m.build id ++ agentObjects stats true engineID boots authenTraps)).isOk = true

/-- A device that does not answer v3 has the fewer objects of its agent. -/
theorem acceptable_of_v3
    (h : Tree.Acceptable (objs ++ agentObjects stats true engineID boots authenTraps)) (v3 : Bool) :
    Tree.Acceptable (objs ++ agentObjects stats v3 engineID boots authenTraps) := by
  cases v3 with
  | true => exact h
  | false =>
      have hsplit : agentObjects stats true engineID boots authenTraps
          = agentObjects stats false engineID boots authenTraps ++
            (engineObjects stats engineID boots ++
              (reportCounters.map (fun id => counted stats id.string id) ++
                [counted stats (Oid.string [1, 3, 6, 1, 6, 3, 12, 1, 4, 0])
                  [1, 3, 6, 1, 6, 3, 12, 1, 4, 0]])) := by
        rw [← List.append_assoc, ← List.append_assoc]
        rfl
      rw [hsplit, ← List.append_assoc] at h
      exact (Tree.acceptable_append.mp h).1

namespace Device

variable {υ τ φ : Type} {models : List (Model κ)} {seed : Octets → Nat} {d : Device υ τ φ}

theorem validate_none {checks : Checks υ τ φ} (h : d.validate models seed checks = none) :
    ∃ m engineID, findModel models d.model = some m ∧ m.checkParams d.params = true ∧
      d.checkObjects models seed = none ∧ Hex.decode d.engineID = some engineID ∧
      d.engineBoots < maxBoots := by
  unfold validate at h
  dsimp only at h
  split at h
  · cases h
  · split at h
    · cases h
    · rename_i m hm
      split at h
      · cases h
      · split at h
        · cases h
        · simp only [Option.or_eq_none_iff] at h
          obtain ⟨_, _, _, _, _, _, _, hparams, hobjects, hengine⟩ := h
          have hparams : m.checkParams d.params = true := by
            by_contra hno
            rw [if_pos (by simpa using hno)] at hparams
            cases hparams
          unfold checkEngine at hengine
          split at hengine
          · cases hengine
          · rename_i engineID hid
            split at hengine
            · cases hengine
            · split at hengine
              · cases hengine
              · rename_i hboots
                exact ⟨m, engineID, hm, hparams, hobjects, hid, by omega⟩

/-- A value of a device's own sits above one of the agent's objects, where its model has none. -/
def Above (models : List (Model κ)) (seed : Octets → Nat) (d : Device υ τ φ) : Prop :=
  ∃ m, findModel models d.model = some m ∧ ∃ o ∈ d.overrides, ∃ id, parseOID o.oid = .ok id ∧
    (∀ p ∈ m.build (d.identity seed), parseOID p.oid ≠ .ok id) ∧
    ∃ g ∈ agentOids (d.answers "v3"), Oid.hasPrefix g id = true

/-- Values of a device's own join the model's objects where there is none. -/
theorem isNone_lastAt {id : Oid} {s : Octets} (h : parseOID s = .ok id) :
    (lastAt objs id.string).isNone = true ↔ ∀ p ∈ objs, parseOID p.oid ≠ .ok id := by
  have hfits := Oid.fits_of_parseArcs (Oid.parseArcs_of_parseOID h)
  rw [Option.isNone_iff_eq_none, lastAt_none]
  constructor
  · exact fun hall p hp hid => hall p hp id hid rfl
  · intro hall p hp id' hid' hname
    have hfits' := Oid.fits_of_parseArcs (Oid.parseArcs_of_parseOID hid')
    exact hall p hp (Oid.string_inj hfits' hfits hname ▸ hid')

theorem objects_of_checkObjects {m : Model κ} (hm : findModel models d.model = some m)
    (hparams : m.checkParams d.params = true) (h : d.checkObjects models seed = none)
    (hmodel : Tree.Acceptable (m.build (d.identity seed))) :
    ∃ own, d.objects models seed = .ok (withOverrides (m.build (d.identity seed)) own) ∧
      compileOverrides κ d.overrides = .ok own ∧
      Tree.Acceptable (withOverrides (m.build (d.identity seed)) own) := by
  unfold checkObjects at h
  unfold objects at h ⊢
  rw [hm] at h ⊢
  dsimp only at h ⊢
  rw [hparams, if_neg (show ¬ (!true) = true by simp)] at h ⊢
  cases hoverrides : d.overrides with
  | nil => exact ⟨[], rfl, rfl, hmodel⟩
  | cons o rest =>
      rw [hoverrides, if_neg (by simp)] at h
      cases hown : compileOverrides κ (o :: rest) with
      | error err =>
          rw [hown] at h
          cases h
      | ok own =>
          rw [hown] at h
          dsimp only at h
          refine ⟨own, rfl, rfl, ?_⟩
          rw [← Tree.newTree_isOk_iff]
          split at h
          · cases h
          · rename_i htree
            rw [htree]
            rfl

theorem served_eq (hid : Hex.decode d.engineID = some engineID)
    (hobjs : d.objects models seed = .ok objs) (authenTraps : Bool) :
    d.served models seed stats authenTraps = .ok (objs ++
      agentObjects stats (d.answers "v3") engineID (max d.engineBoots 1) authenTraps) := by
  unfold served
  rw [hid, hobjs]

/-- A model that answers its name and nothing else. -/
def nameOnly : Model Unit where
  id := octets "name-only"
  params := []
  build id :=
    [{ oid := dotted [1, 3, 6, 1, 2, 1, 1, 5, 0]
       type := .octetString
       value := some (const Unit (.str id.name)) }]

/-- An agent that has counted nothing yet. -/
def nothingYet : Statistics Unit where
  count _ _ := 0
  seconds _ := 0

theorem nameOnly_starts : nameOnly.Starts nothingYet := by
  intro id _ engineID boots authenTraps hboots
  have hone : (Tree.newTree (nameOnly.build ⟨[], 0, [], [], []⟩ ++
      agentObjects nothingYet true [] 1 false)).isOk = true := by
    decide
  have hname : parseOID (dotted [1, 3, 6, 1, 2, 1, 1, 5, 0]) = .ok [1, 3, 6, 1, 2, 1, 1, 5, 0] := by
    decide
  rw [Tree.newTree_isOk_iff] at hone ⊢
  refine acceptable_of_stands (List.rel_append (.cons ⟨rfl, _, hname, hname⟩ .nil)
    (agentObjects_stand ..)) hone ?_
  intro o ho
  rcases List.mem_append.mp ho with ho | ho
  · obtain rfl := List.mem_singleton.mp ho
    exact made_isSome hname rfl rfl
  · exact made_agentObjects hboots o ho

/-- Everything that is checked elsewhere is in order. -/
def allWell : Checks Octets Unit Unit where
  listen _ := true
  user _ := true
  userName u := u
  traps _ _ _ := true
  faults _ := true

/-- A device of that model, with one value of its own. -/
def withOne (version : String) (oid : Oid) : Device Octets Unit Unit where
  id := []
  name := octets "r1"
  model := octets "name-only"
  address := octets "127.0.0.1"
  port := 1161
  versions := [octets version]
  community := octets "public"
  writeCommunity := []
  users := [octets "ops"]
  engineID := octets "8000000001"
  engineBoots := 1
  traps := ()
  location := []
  contact := []
  faults := ()
  params := []
  overrides := [{ oid := dotted oid, type := octets "Integer", value := octets "1", hex := false }]

end Device

end SnmpLens.Simulator
