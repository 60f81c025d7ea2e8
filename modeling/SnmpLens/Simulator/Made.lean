import SnmpLens.Simulator.Tree

/-!
# Which objects make a tree

`newTree` refuses a list of objects for what one of them is, and for where two of them
sit. Said of the list as a whole: every object can be made, the OIDs a request reads
are apart, and those only a notification carries are named once and named nowhere
else. None of it depends on the order of the list, so what two lists make together is
told from each of them and from what lies across.
-/

namespace SnmpLens.Simulator

open Prefix Utf8

variable {κ : Type}

/-- The entry an object makes, where its OID parses and its value can be sent. -/
def Object.made (o : Object κ) : Option (Entry κ) :=
  match parseOID o.oid, o.value with
  | .ok id, some value =>
      if value.check o.type then some { oid := id, name := id.string, typ := o.type, val := value }
      else none
  | _, _ => none

namespace Tree

/-- What a request reads. -/
def readable (objects : List (Object κ)) : List (Entry κ) :=
  (objects.filter fun o => !o.notifyOnly).filterMap Object.made

/-- What only a notification carries. -/
def hidden (objects : List (Object κ)) : List (Entry κ) :=
  (objects.filter Object.notifyOnly).filterMap Object.made

/-- **What `newTree` asks of its objects.** -/
structure Acceptable (objects : List (Object κ)) : Prop where
  made : ∀ o ∈ objects, o.made.isSome = true
  apart : ((readable objects).map Entry.oid).Pairwise Apart
  once : ((hidden objects).map Entry.oid).Nodup
  nowhere : ∀ e ∈ hidden objects, e.oid ∉ (readable objects).map Entry.oid

/-! ## Two lists -/

theorem readable_append (a b : List (Object κ)) : readable (a ++ b) = readable a ++ readable b := by
  unfold readable
  rw [List.filter_append, List.filterMap_append]

theorem hidden_append (a b : List (Object κ)) : hidden (a ++ b) = hidden a ++ hidden b := by
  unfold hidden
  rw [List.filter_append, List.filterMap_append]

/-- What lies across two lists. -/
structure Across (a b : List (Object κ)) : Prop where
  apart : ∀ x ∈ readable a, ∀ y ∈ readable b, Apart x.oid y.oid
  once : ∀ x ∈ hidden a, ∀ y ∈ hidden b, x.oid ≠ y.oid
  left : ∀ x ∈ hidden a, ∀ y ∈ readable b, x.oid ≠ y.oid
  right : ∀ x ∈ hidden b, ∀ y ∈ readable a, x.oid ≠ y.oid

/-- **Two lists are acceptable together when each is, and what lies across them.** -/
theorem acceptable_append {a b : List (Object κ)} :
    Acceptable (a ++ b) ↔ Acceptable a ∧ Acceptable b ∧ Across a b := by
  constructor
  · intro h
    have hapart := h.apart
    have honce := h.once
    have hnowhere := h.nowhere
    rw [readable_append, List.map_append, List.pairwise_append] at hapart
    rw [hidden_append, List.map_append, List.nodup_append] at honce
    simp only [readable_append, hidden_append, List.map_append, List.mem_append, List.mem_map,
      not_or, not_exists, not_and] at hnowhere
    refine ⟨⟨fun o ho => h.made o (List.mem_append_left b ho), hapart.1, honce.1, ?_⟩,
      ⟨fun o ho => h.made o (List.mem_append_right a ho), hapart.2.1, honce.2.1, ?_⟩, ?_, ?_, ?_, ?_⟩
    · intro e he hmem
      obtain ⟨x, hx, heq⟩ := List.mem_map.mp hmem
      exact (hnowhere e (.inl he)).1 x hx heq
    · intro e he hmem
      obtain ⟨x, hx, heq⟩ := List.mem_map.mp hmem
      exact (hnowhere e (.inr he)).2 x hx heq
    · exact fun x hx y hy => hapart.2.2 _ (List.mem_map_of_mem hx) _ (List.mem_map_of_mem hy)
    · exact fun x hx y hy => honce.2.2 _ (List.mem_map_of_mem hx) _ (List.mem_map_of_mem hy)
    · exact fun x hx y hy heq => (hnowhere x (.inl hx)).2 y hy heq.symm
    · exact fun x hx y hy heq => (hnowhere x (.inr hx)).1 y hy heq.symm
  · rintro ⟨ha, hb, hacross⟩
    refine ⟨?_, ?_, ?_, ?_⟩
    · intro o ho
      rcases List.mem_append.mp ho with ho | ho
      · exact ha.made o ho
      · exact hb.made o ho
    · rw [readable_append, List.map_append, List.pairwise_append]
      refine ⟨ha.apart, hb.apart, fun o ho p hp => ?_⟩
      obtain ⟨x, hx, rfl⟩ := List.mem_map.mp ho
      obtain ⟨y, hy, rfl⟩ := List.mem_map.mp hp
      exact hacross.apart x hx y hy
    · rw [hidden_append, List.map_append, List.nodup_append]
      refine ⟨ha.once, hb.once, fun o ho p hp => ?_⟩
      obtain ⟨x, hx, rfl⟩ := List.mem_map.mp ho
      obtain ⟨y, hy, rfl⟩ := List.mem_map.mp hp
      exact hacross.once x hx y hy
    · intro e he hmem
      rw [readable_append, List.map_append, List.mem_append] at hmem
      rw [hidden_append, List.mem_append] at he
      rcases he with he | he
      · rcases hmem with hmem | hmem
        · exact ha.nowhere e he hmem
        · obtain ⟨y, hy, heq⟩ := List.mem_map.mp hmem
          exact hacross.left e he y hy heq.symm
      · rcases hmem with hmem | hmem
        · obtain ⟨y, hy, heq⟩ := List.mem_map.mp hmem
          exact hacross.right e he y hy heq.symm
        · exact hb.nowhere e he hmem

/-! ## The loop over the objects -/

theorem collect_cons {t : Tree κ} {o : Object κ} {rest : List (Object κ)} :
    (∃ err, collect t (o :: rest) = .error err ∧ o.made = none) ∨
      ∃ e, o.made = some e ∧ collect t (o :: rest) =
        if o.notifyOnly then
          if (t.notifyOnly.lookup e.name).isSome then .error (.declaredTwice e.oid)
          else collect { t with notifyOnly := t.notifyOnly ++ [(e.name, e)] } rest
        else
          collect { t with
            entries := t.entries ++ [e]
            objects := Oid.string e.oid.dropLast :: t.objects } rest := by
  rw [collect]
  unfold Object.made
  cases hid : parseOID o.oid with
  | error err => exact .inl ⟨_, rfl, rfl⟩
  | ok id =>
      cases hvalue : o.value with
      | none => exact .inl ⟨_, rfl, rfl⟩
      | some value =>
          dsimp only
          cases hcheck : value.check o.type with
          | false => exact .inl ⟨_, rfl, rfl⟩
          | true => exact .inr ⟨_, rfl, rfl⟩

theorem readable_cons {o : Object κ} {e : Entry κ} {rest : List (Object κ)} (h : o.made = some e) :
    readable (o :: rest) = if o.notifyOnly then readable rest else e :: readable rest := by
  unfold readable
  cases hn : o.notifyOnly with
  | true => rw [List.filter_cons_of_neg (by simp [hn]), if_pos rfl]
  | false =>
      rw [List.filter_cons_of_pos (by simp [hn]), List.filterMap_cons_some h, if_neg (by simp)]

theorem hidden_cons {o : Object κ} {e : Entry κ} {rest : List (Object κ)} (h : o.made = some e) :
    hidden (o :: rest) = if o.notifyOnly then e :: hidden rest else hidden rest := by
  unfold hidden
  cases hn : o.notifyOnly with
  | true => rw [List.filter_cons_of_pos hn, List.filterMap_cons_some h, if_pos rfl]
  | false => rw [List.filter_cons_of_neg (by simp [hn]), if_neg (by simp)]

variable {objects : List (Object κ)}

/-- **What the loop has gathered, when it does not stop.** -/
theorem collect_ok {t t' : Tree κ} (h : collect t objects = .ok t') :
    t'.entries = t.entries ++ readable objects ∧
      t'.notifyOnly = t.notifyOnly ++ (hidden objects).map fun e => (e.name, e) := by
  induction objects generalizing t with
  | nil =>
      obtain rfl := Except.ok.inj h
      simp [readable, hidden]
  | cons o rest ih =>
      obtain ⟨err, herr, _⟩ | ⟨e, hmade, heq⟩ := @collect_cons _ t o rest
      · rw [herr] at h
        cases h
      · rw [heq] at h
        rw [readable_cons hmade, hidden_cons hmade]
        cases hn : o.notifyOnly with
        | true =>
            rw [hn, if_pos rfl] at h
            split at h
            · cases h
            · obtain ⟨he, hh⟩ := ih h
              rw [if_pos rfl, if_pos rfl]
              exact ⟨he, by rw [hh]; simp⟩
        | false =>
            rw [hn, if_neg (by simp)] at h
            obtain ⟨he, hh⟩ := ih h
            rw [if_neg (by simp), if_neg (by simp)]
            exact ⟨by rw [he]; simp, hh⟩

theorem collect_isOk {t : Tree κ} :
    (collect t objects).isOk = true ↔ (∀ o ∈ objects, o.made.isSome = true) ∧
      ((hidden objects).map Entry.name).Nodup ∧
      ∀ e ∈ hidden objects, t.notifyOnly.lookup e.name = none := by
  induction objects generalizing t with
  | nil => simp [collect, hidden, Except.isOk, Except.toBool]
  | cons o rest ih =>
      obtain ⟨err, herr, hmade⟩ | ⟨e, hmade, heq⟩ := @collect_cons _ t o rest
      · rw [herr]
        constructor
        · exact fun h => absurd h (by simp [Except.isOk, Except.toBool])
        · rintro ⟨hall, _⟩
          have := hall o List.mem_cons_self
          rw [hmade] at this
          cases this
      · have hall : (∀ x ∈ o :: rest, x.made.isSome = true) ↔ ∀ x ∈ rest, x.made.isSome = true := by
          rw [List.forall_mem_cons, hmade]
          exact ⟨fun h => h.2, fun h => ⟨rfl, h⟩⟩
        rw [heq, hidden_cons hmade, hall]
        cases o.notifyOnly with
        | false =>
            rw [if_neg (by simp), if_neg (by simp)]
            exact ih
        | true =>
            rw [if_pos rfl, if_pos rfl, List.map_cons, List.nodup_cons, List.forall_mem_cons]
            cases hlookup : t.notifyOnly.lookup e.name with
            | some e' =>
                rw [if_pos Option.isSome_some]
                constructor
                · exact fun h => absurd h (by simp [Except.isOk, Except.toBool])
                · rintro ⟨_, _, hnone, _⟩
                  cases hnone
            | none =>
                have hlast : ∀ x : Entry κ,
                    (t.notifyOnly ++ [(e.name, e)]).lookup x.name = none ↔
                      t.notifyOnly.lookup x.name = none ∧ x.name ≠ e.name := by
                  intro x
                  rw [List.lookup_append, Option.or_eq_none_iff]
                  refine and_congr_right fun _ => ?_
                  by_cases hname : x.name = e.name
                  · simp [List.lookup_singleton, hname]
                  · simp [List.lookup_singleton, hname]
                rw [if_neg (by simp), ih]
                constructor
                · rintro ⟨hmake, hnodup, hfree⟩
                  refine ⟨hmake, ⟨fun hmem => ?_, hnodup⟩, rfl, fun x hx => ((hlast x).mp (hfree x hx)).1⟩
                  obtain ⟨x, hx, hname⟩ := List.mem_map.mp hmem
                  exact ((hlast x).mp (hfree x hx)).2 hname
                · rintro ⟨hmake, ⟨hnew, hnodup⟩, _, hfree⟩
                  refine ⟨hmake, hnodup, fun x hx => (hlast x).mpr ⟨hfree x hx, fun hname => ?_⟩⟩
                  exact hnew (hname ▸ List.mem_map_of_mem hx)

/-! ## What is checked of the loop's result -/

theorem leaves_of_before {entries : List (Entry κ)}
    (h : (entries.map Entry.oid).Pairwise Before) : leaves entries = .ok () := by
  induction entries with
  | nil => rfl
  | cons prev rest ih =>
      cases rest with
      | nil => rfl
      | cons cur rest =>
          obtain ⟨hprev, hrest⟩ := List.pairwise_cons.mp h
          have hbefore := hprev cur.oid List.mem_cons_self
          unfold leaves
          rw [if_neg hbefore.1.ne, if_neg (fun hp => hbefore.2 (Oid.hasPrefix_iff.mp hp)), ih hrest]

theorem notDeclared_isOk {entries : List (Entry κ)} (hs : Sorted entries)
    {named : List (Octets × Entry κ)} :
    (notDeclared entries named).isOk = true ↔
      ∀ p ∈ named, p.2.oid ∉ entries.map Entry.oid := by
  induction named with
  | nil => simp [notDeclared, Except.isOk, Except.toBool]
  | cons p rest ih =>
      unfold notDeclared
      rw [List.forall_mem_cons, ← found_iff hs]
      split
      · rename_i hfound
        simp [Except.isOk, Except.toBool, hfound]
      · rename_i hfound
        rw [ih]
        exact ⟨fun h => ⟨hfound, h⟩, fun h => h.2⟩

theorem fits_of_made {o : Object κ} {e : Entry κ} (h : o.made = some e) :
    e.oid.Fits ∧ e.name = e.oid.string := by
  unfold Object.made at h
  split at h
  · rename_i id value hid _
    split at h
    · obtain rfl := Option.some.inj h
      exact ⟨Oid.fits_of_parseArcs (Oid.parseArcs_of_parseOID hid), rfl⟩
    · cases h
  · cases h

theorem nodup_names :
    ((hidden objects).map Entry.name).Nodup ↔ ((hidden objects).map Entry.oid).Nodup := by
  have hmade : ∀ e ∈ hidden objects, e.oid.Fits ∧ e.name = e.oid.string := by
    intro e he
    obtain ⟨o, _, ho⟩ := List.mem_filterMap.mp he
    exact fits_of_made ho
  have hnames : (hidden objects).map Entry.name = ((hidden objects).map Entry.oid).map Oid.string := by
    rw [List.map_map]
    exact List.map_congr_left fun e he => (hmade e he).2
  rw [hnames]
  constructor
  · exact List.Nodup.of_map _
  · refine fun h => h.map_on ?_
    intro o ho p hp heq
    obtain ⟨e, he, rfl⟩ := List.mem_map.mp ho
    obtain ⟨e', he', rfl⟩ := List.mem_map.mp hp
    exact Oid.string_inj (hmade e he).1 (hmade e' he').1 heq

/-- **A tree is made of exactly the lists of objects that are acceptable.** -/
theorem newTree_isOk_iff :
    (newTree objects).isOk = true ↔ Acceptable objects := by
  have hloop := @collect_isOk _ objects { entries := [], objects := [], notifyOnly := [] }
  unfold newTree
  cases hc : collect ({ entries := [], objects := [], notifyOnly := [] } : Tree κ) objects with
  | error err =>
      rw [hc] at hloop
      constructor
      · exact fun h => absurd h (by simp [bind, Except.bind, Except.isOk, Except.toBool])
      · intro h
        have := hloop.mpr ⟨h.made, nodup_names.mpr h.once, fun _ _ => rfl⟩
        exact absurd this (by simp [Except.isOk, Except.toBool])
  | ok t =>
      rw [hc] at hloop
      obtain ⟨hmade, hnames, _⟩ := hloop.mp rfl
      obtain ⟨hentries, hnotify⟩ := collect_ok hc
      rw [List.nil_append] at hentries hnotify
      have hsorted := sorted_le t.entries
      have hperm : ((t.entries.insertionSort inOrder).map Entry.oid).Perm
          ((readable objects).map Entry.oid) :=
        hentries ▸ (List.perm_insertionSort inOrder t.entries).map Entry.oid
      have hbefore : ((t.entries.insertionSort inOrder).map Entry.oid).Pairwise Before ↔
          ((readable objects).map Entry.oid).Pairwise Apart :=
        (pairwise_before_iff_apart hsorted).trans (pairwise_apart_perm hperm)
      simp only [bind, Except.bind]
      by_cases hleaves : ((readable objects).map Entry.oid).Pairwise Apart
      · have hpw := hbefore.mpr hleaves
        have hs : Sorted (t.entries.insertionSort inOrder) := hpw.imp fun hab => hab.1
        rw [leaves_of_before hpw]
        dsimp only
        have hnot := @notDeclared_isOk _ _ hs t.notifyOnly
        have hnowhere : (∀ p ∈ t.notifyOnly, p.2.oid ∉
            (t.entries.insertionSort inOrder).map Entry.oid) ↔
            ∀ e ∈ hidden objects, e.oid ∉ (readable objects).map Entry.oid := by
          rw [hnotify]
          simp only [List.mem_map, forall_exists_index, and_imp, forall_apply_eq_imp_iff₂]
          simp only [← List.mem_map, hperm.mem_iff]
        rw [hnowhere] at hnot
        cases hn : notDeclared (t.entries.insertionSort inOrder) t.notifyOnly with
        | error err =>
            rw [hn] at hnot
            constructor
            · exact fun h => absurd h (by simp [Except.isOk, Except.toBool])
            · intro h
              exact absurd (hnot.mpr h.nowhere) (by simp [Except.isOk, Except.toBool])
        | ok u =>
            rw [hn] at hnot
            exact ⟨fun _ => ⟨hmade, hleaves, nodup_names.mp hnames, hnot.mp rfl⟩, fun _ => rfl⟩
      · cases hl : leaves (t.entries.insertionSort inOrder) with
        | error err =>
            constructor
            · exact fun h => absurd h (by simp [Except.isOk, Except.toBool])
            · exact fun h => absurd h.apart hleaves
        | ok u => exact absurd (hbefore.mp (before_of_leaves hl hsorted)) hleaves

end Tree

end SnmpLens.Simulator
