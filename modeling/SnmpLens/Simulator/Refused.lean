import SnmpLens.Lib.Machine
import SnmpLens.Simulator.Service

/-!
# A change that is refused

What a call that is refused before the new list was written has left behind. Every call puts the
credentials first and the file after them, and two calls do something that is not undone when the
file cannot be written: a device that is saved again has its new credentials, and a device that
was to be deleted has been stopped. Where neither makes a difference, nothing has changed
(`unchanged_iff`).

A device's address is compared as a text, and the one that is suggested may be taken where all of
them are, so two devices answer on one address where a spelling or a suggestion lets them.
-/

namespace SnmpLens.Simulator

open Utf8 Strings Machine

variable {σ φ : Type}

/-- The IDs an operation draws are no listed device's: they are eight random octets. -/
def Op.Fresh (s : Service σ φ) : Op σ φ → Prop
  | .save _ draw _ _ => s.index draw.id = none
  | .duplicate _ _ draw _ _ => s.index draw.id = none
  | .importDevices _ devices _ => ∀ d ∈ devices, s.index d.2.id = none
  | _ => True

namespace Service

/-- The list, the file, the credentials of the devices listed, and the devices that run. -/
structure Unchanged (s t : Service σ φ) : Prop where
  devices : t.devices = s.devices
  file : t.file = s.file
  creds : ∀ d ∈ s.devices, t.creds d.id = s.creds d.id
  running : t.running = s.running

/-- What is not undone makes no difference: a device saved again is given the credentials it has,
and a device to be deleted does not run. -/
def Harmless (rules : Rules σ φ) (s : Service σ φ) : Op σ φ → Prop
  | .save d draw _ _ => ∀ i d', s.admitted rules d draw = .ok (some i, d') → draw.sets = true →
      s.creds d'.id = some d'.secrets
  | .delete id _ _ => s.index id ≠ none → s.running id = false
  | _ => True

variable {rules : Rules σ φ} {s : Service σ φ}

theorem Unchanged.refl (s : Service σ φ) : s.Unchanged s := ⟨rfl, rfl, fun _ _ => rfl, rfl⟩

variable {d : Simulated σ φ} {id : Octets}

theorem ne_of_index (h : s.index id = none) (hd : d ∈ s.devices) :
    d.id ≠ id := by
  have hall := List.findIdx?_eq_none_iff.mp h d hd
  simpa using hall

theorem exists_of_index {i : Nat} (h : s.index id = some i) :
    ∃ d ∈ s.devices, d.id = id := by
  obtain ⟨hlt, hp, _⟩ := List.findIdx?_eq_some_iff_getElem.mp h
  exact ⟨s.devices[i], List.getElem_mem hlt, by simpa using hp⟩

theorem unchanged_keep (h : s.index id = none) (creds : Option DeviceSecrets) :
    s.Unchanged (s.keep id creds) where
  devices := rfl
  file := rfl
  creds _ hd := if_neg (ne_of_index h hd)
  running := rfl

theorem Unchanged.trans {t u : Service σ φ} (h : s.Unchanged t) (h' : t.Unchanged u) :
    s.Unchanged u where
  devices := h'.devices.trans h.devices
  file := h'.file.trans h.file
  creds d hd := (h'.creds d (h.devices ▸ hd)).trans (h.creds d hd)
  running := h'.running.trans h.running

/-! ## Where a device that is saved comes from -/

variable {draw : Draw} {d d' : Simulated σ φ}

theorem identified_none (h : s.identified rules d draw = .ok (none, d')) :
    d'.id = draw.id := by
  unfold identified at h
  split at h
  · split at h
    · cases h
    · obtain ⟨-, rfl⟩ := Prod.mk.inj (Except.ok.inj h)
      rfl
  · split at h
    · obtain ⟨h, -⟩ := Prod.mk.inj (Except.ok.inj h)
      cases h
    · cases h

theorem identified_some {i : Nat} (h : s.identified rules d draw = .ok (some i, d')) :
    s.index d'.id = some i := by
  unfold identified at h
  split at h
  · split at h
    · cases h
    · obtain ⟨h, -⟩ := Prod.mk.inj (Except.ok.inj h)
      cases h
  · split at h
    · rename_i hi _
      obtain ⟨hj, rfl⟩ := Prod.mk.inj (Except.ok.inj h)
      rw [← hj]
      exact hi
    · cases h

/-- What is admitted was identified, and no other device has the text of its address. -/
theorem admitted_ok {i : Option Nat} (h : s.admitted rules d draw = .ok (i, d')) :
    s.identified rules (trimmed d draw) draw = .ok (i, d') ∧
      ∀ other ∈ s.others i, other.listen ≠ d'.listen := by
  unfold admitted at h
  split at h
  · cases h
  · split at h
    · cases h
    · rename_i found hid
      split at h
      · cases h
      · split at h
        · cases h
        · rename_i hother
          cases h
          refine ⟨hid, fun other hmem heq => ?_⟩
          have hne := List.find?_eq_none.mp hother other hmem
          simp [heq] at hne

/-! ## What a refused call leaves behind -/

theorem save_iff {writes : Bool} {restart : Start} (hfresh : s.index draw.id = none)
    (h : (s.saveDevice rules d draw writes restart).2.Refused) :
    s.Unchanged (s.saveDevice rules d draw writes restart).1 ↔
      s.Harmless rules (.save d draw writes restart) := by
  simp only [Harmless]
  unfold saveDevice at h ⊢
  cases hadmitted : s.admitted rules d draw with
  | error err => exact ⟨fun _ i d' heq => (nomatch heq), fun _ => .refl s⟩
  | ok found =>
      obtain ⟨i, d'⟩ := found
      rw [hadmitted] at h
      dsimp only at h ⊢
      cases hsets : draw.sets with
      | false => exact ⟨fun _ _ _ _ hset => (nomatch hset), fun _ => .refl s⟩
      | true =>
          cases writes with
          | true =>
              -- the new list was written
              exfalso
              rw [hsets] at h
              simp only [Bool.not_true, Bool.false_eq_true, if_false] at h
              split at h
              · exact absurd h.1 (by simp)
              · exact absurd h.2 (by simp)
          | false =>
              cases i with
              | none =>
                  have hid : d'.id = draw.id := identified_none (admitted_ok hadmitted).1
                  refine ⟨fun _ i d'' heq => (nomatch heq), fun _ => ?_⟩
                  have hkeep := unchanged_keep (hid ▸ hfresh) (some d'.secrets)
                  cases draw.deletes with
                  | true => exact hkeep.trans (unchanged_keep (s := s.keep _ _) (hid ▸ hfresh) none)
                  | false => exact hkeep
              | some i =>
                  obtain ⟨old, hold, holdid⟩ := exists_of_index (identified_some (admitted_ok hadmitted).1)
                  constructor
                  · intro hsame j d'' heq _
                    cases heq
                    have hcreds := hsame.creds old hold
                    rw [holdid] at hcreds
                    exact hcreds.symm.trans (if_pos rfl)
                  · intro hharm
                    have hcreds := hharm i d' rfl rfl
                    refine ⟨rfl, rfl, fun other _ => ?_, rfl⟩
                    show (if other.id = d'.id then some d'.secrets else s.creds other.id) = _
                    split
                    · rename_i heq
                      rw [heq, hcreds]
                    · rfl

theorem delete_iff {writes deletes : Bool} (h : (s.deleteDevice id writes deletes).2.Refused) :
    s.Unchanged (s.deleteDevice id writes deletes).1 ↔
      s.Harmless rules (.delete id writes deletes) := by
  simp only [Harmless]
  unfold deleteDevice at h ⊢
  cases hindex : s.index id with
  | none => exact ⟨fun _ hne => absurd rfl hne, fun _ => .refl s⟩
  | some i =>
      rw [hindex] at h
      cases writes with
      | true => exact absurd h.1 (by simp)
      | false =>
          constructor
          · intro hsame _
            have hrunning := congrFun hsame.running id
            exact hrunning.symm.trans (if_pos rfl)
          · intro hharm
            refine ⟨rfl, rfl, fun _ _ => rfl, funext fun other => ?_⟩
            show (if other = id then false else s.running other) = _
            split
            · rename_i heq
              rw [heq, hharm (by simp)]
            · rfl

theorem copied_ok {id name : Octets} {gets : Bool} (h : s.copied rules id name draw gets = .ok d) :
    d.id = draw.id := by
  unfold copied at h
  split at h
  · cases h
  · split at h
    · cases h
    · split at h
      · cases h
      · split at h
        · cases h
        · dsimp only at h
          split at h
          · cases h
          · cases h
            rfl

theorem duplicate_unchanged {id name : Octets} {gets writes : Bool}
    (hfresh : s.index draw.id = none)
    (h : (s.duplicateDevice rules id name draw gets writes).2.Refused) :
    s.Unchanged (s.duplicateDevice rules id name draw gets writes).1 := by
  unfold duplicateDevice at h ⊢
  cases hcopied : s.copied rules id name draw gets with
  | error err => exact .refl s
  | ok d =>
      rw [hcopied] at h
      have hid := copied_ok hcopied
      have hkeep := unchanged_keep (hid ▸ hfresh) (some d.secrets)
      cases hsets : draw.sets with
      | false => exact .refl s
      | true =>
          cases writes with
          | true => exact absurd h.1 (by simp [hsets])
          | false =>
              cases hdeletes : draw.deletes with
              | true =>
                  simpa [hsets, hdeletes] using
                    hkeep.trans (unchanged_keep (s := s.keep _ _) (hid ▸ hfresh) none)
              | false => simpa [hsets, hdeletes] using hkeep

theorem setFaults_unchanged {faults : φ} {writes sets : Bool}
    (h : (s.setFaults rules id faults writes sets).2.Refused) :
    s.Unchanged (s.setFaults rules id faults writes sets).1 := by
  unfold setFaults at h ⊢
  split
  · exact .refl s
  · rename_i hcheck
    rw [if_neg hcheck] at h
    split
    · exact .refl s
    · rename_i i hindex
      rw [hindex] at h
      cases writes with
      | true => exact absurd h.2 (by simp)
      | false => exact .refl s

variable {withSecrets : Bool} {next : List (Simulated σ φ)}

theorem placed_ok (h : placed rules withSecrets next d draw = .ok d') : d'.id = draw.id := by
  unfold placed at h
  dsimp only at h
  split at h
  · cases h
  · split at h
    · cases h
    · cases h
      rw [apply_ite Device.id]
      exact ite_self _

variable {devices : List (Simulated σ φ × Draw)}

theorem importLoop_creds (hid : ∀ d ∈ devices, d.2.id ≠ id) {acc : Importing σ φ}
    (hstored : ∀ x ∈ acc.stored, x.1 ≠ id) :
    (importLoop rules withSecrets acc devices).creds id = acc.creds id ∧
      ∀ x ∈ (importLoop rules withSecrets acc devices).stored, x.1 ≠ id := by
  induction devices generalizing acc with
  | nil => exact ⟨rfl, hstored⟩
  | cons d devices ih =>
      obtain ⟨d, draw⟩ := d
      have hdraw : draw.id ≠ id := hid _ List.mem_cons_self
      have hone : (importOne rules withSecrets acc d draw).creds id = acc.creds id ∧
          ∀ x ∈ (importOne rules withSecrets acc d draw).stored, x.1 ≠ id := by
        unfold importOne
        split
        · exact ⟨rfl, hstored⟩
        · rename_i d' hplaced
          have hd' := placed_ok hplaced
          split
          · exact ⟨rfl, hstored⟩
          · split
            · exact ⟨rfl, hstored⟩
            · refine ⟨if_neg fun heq => hdraw (hd'.symm.trans heq.symm), fun x hx => ?_⟩
              rcases List.mem_append.mp hx with hx | hx
              · exact hstored x hx
              · rw [List.mem_singleton.mp hx, hd']
                exact hdraw
      have hrest := ih (fun d hd => hid d (List.mem_cons_of_mem _ hd)) hone.2
      exact ⟨hrest.1.trans hone.1, hrest.2⟩

theorem import_unchanged {writes : Bool} (hfresh : ∀ d ∈ devices, s.index d.2.id = none)
    (h : (s.importDevices rules withSecrets devices writes).2.Refused) :
    s.Unchanged (s.importDevices rules withSecrets devices writes).1 := by
  have hcreds : ∀ d ∈ s.devices,
      (importLoop rules withSecrets { next := s.devices, creds := s.creds } devices).creds d.id =
          s.creds d.id ∧
        ∀ x ∈ (importLoop rules withSecrets { next := s.devices, creds := s.creds } devices).stored,
          x.1 ≠ d.id :=
    fun d hd => importLoop_creds (fun x hx => (ne_of_index (hfresh x hx) hd).symm)
      fun x hx => nomatch hx
  unfold importDevices at h ⊢
  split
  · exact .refl s
  · rename_i hstore
    rw [if_neg hstore] at h
    dsimp only at h ⊢
    split
    · exact ⟨rfl, rfl, fun d hd => (hcreds d hd).1, rfl⟩
    · rename_i hlength
      rw [if_neg hlength] at h
      cases writes with
      | true => exact absurd h.2 (by simp)
      | false =>
          refine ⟨rfl, rfl, fun d hd => ?_, rfl⟩
          refine (if_neg fun hmem => ?_).trans (hcreds d hd).1
          exact (hcreds d hd).2 _ hmem rfl

theorem start_unchanged {i : Nat} {start : Start}
    (h : (s.startSimulatedLocked rules i start).2.Refused) :
    s.Unchanged (s.startSimulatedLocked rules i start).1 := by
  unfold startSimulatedLocked at h ⊢
  split
  · exact .refl s
  · rename_i d hd
    rw [hd] at h
    dsimp only at h ⊢
    split
    · exact .refl s
    · rename_i hgets
      rw [if_neg hgets] at h
      split
      · exact .refl s
      · rename_i hwrites
        rw [if_neg hwrites] at h
        split at h
        · exact absurd h.2 (by simp)
        · exact absurd h.2 (by simp)

/-- **A call that is refused before its list was written changes nothing, exactly where what it does
not undo makes no difference.** -/
theorem unchanged_iff {op : Op σ φ} (hfresh : op.Fresh s) (h : (s.perform rules op).2.Refused) :
    s.Unchanged (s.perform rules op).1 ↔ s.Harmless rules op := by
  cases op with
  | save d draw writes restart => exact save_iff hfresh h
  | delete id writes deletes => exact delete_iff h
  | duplicate id name draw gets writes => exact iff_of_true (duplicate_unchanged hfresh h) trivial
  | setFaults id faults writes sets => exact iff_of_true (setFaults_unchanged h) trivial
  | importDevices withSecrets devices writes => exact iff_of_true (import_unchanged hfresh h) trivial
  | start id start =>
      refine iff_of_true ?_ trivial
      simp only [perform] at h ⊢
      split
      · exact .refl s
      · rename_i i hindex
        rw [hindex] at h
        exact start_unchanged h
  | stop id => exact absurd h.1 (by simp [perform])
  | restart reads opens => exact absurd h.1 (by simp [perform])

/-! ## Where the devices answer -/

/-- A device that answers where another one does has the text of its address. -/
def Spelled (next : List (Simulated σ φ)) (d : Simulated σ φ) : Prop :=
  ∀ other ∈ next, Clash other d → other.listen = d.listen

/-- The text of a device's address is nobody's. -/
def Untaken (next : List (Simulated σ φ)) (d : Simulated σ φ) : Prop :=
  d.listen ∉ next.map Device.listen

/-- Each device a file adds is spelled as the devices before it, and has an address of its own. -/
def ImportSound (rules : Rules σ φ) (withSecrets : Bool) (acc : Importing σ φ) :
    List (Simulated σ φ × Draw) → Prop
  | [] => True
  | (d, draw) :: rest =>
      (∀ d', placed rules withSecrets acc.next d draw = .ok d' →
        Spelled acc.next d' ∧ Untaken acc.next d') ∧
      ImportSound rules withSecrets (importOne rules withSecrets acc d draw) rest

/-- A device is put where the text of an address tells it from another one: it is not another
spelling of a listed device's address, and the address that is suggested is free. -/
def Sound (rules : Rules σ φ) (s : Service σ φ) : Op σ φ → Prop
  | .save d draw _ _ => ∀ i d', s.admitted rules d draw = .ok (i, d') → Spelled (s.others i) d'
  | .duplicate id name draw gets _ => ∀ d, s.copied rules id name draw gets = .ok d →
      Spelled s.devices d ∧ Untaken s.devices d
  | .importDevices withSecrets devices _ =>
      ImportSound rules withSecrets { next := s.devices, creds := s.creds } devices
  | _ => True

/-- Neither the list nor the file has two devices on one address. -/
structure Kept (s : Service σ φ) : Prop where
  devices : NoClash s.devices
  file : NoClash s.file

theorem clash_symm {a b : Simulated σ φ} (h : Clash a b) : Clash b a := by
  obtain ⟨at_, ha, hb⟩ := h
  exact ⟨at_, hb, ha⟩

theorem not_clash (hspelled : Spelled next d) (huntaken : Untaken next d) :
    ∀ other ∈ next, ¬ Clash other d :=
  fun other hother hclash =>
    huntaken (List.mem_map.mpr ⟨other, hother, hspelled other hother hclash⟩)

variable {ds : List (Simulated σ φ)}

theorem noClash_iff : NoClash ds ↔
    (ds.map Device.listen).Pairwise fun a b =>
      ¬ ∃ at_, checkListen a = some at_ ∧ checkListen b = some at_ := by
  rw [List.pairwise_map]
  rfl

theorem noClash_congr {ds es : List (Simulated σ φ)}
    (h : es.map Device.listen = ds.map Device.listen) (hds : NoClash ds) : NoClash es := by
  rw [noClash_iff, h]
  exact noClash_iff.mp hds

theorem noClash_bare (h : NoClash ds) :
    NoClash (ds.map Device.withoutSecrets) :=
  noClash_congr (by rw [List.map_map]; rfl) h

theorem noClash_append (h : NoClash ds) (hd : ∀ other ∈ ds, ¬ Clash other d) :
    NoClash (ds ++ [d.withoutSecrets]) := by
  refine List.pairwise_append.mpr ⟨h, List.pairwise_singleton _ _, fun other hother e he => ?_⟩
  rw [List.mem_singleton.mp he]
  exact hd other hother

theorem noClash_set {i : Nat} (h : NoClash ds) (hd : ∀ other ∈ ds.eraseIdx i, ¬ Clash other d) :
    NoClash (ds.set i d.withoutSecrets) := by
  refine List.pairwise_iff_getElem.mpr fun p q hp hq hpq => ?_
  rw [List.length_set] at hp hq
  have hother : ∀ r (hr : r < ds.length), r ≠ i → ¬ Clash ds[r] d := fun r hr hri =>
    hd _ (List.mem_eraseIdx_iff_getElem.mpr ⟨r, hr, hri, rfl⟩)
  rw [List.getElem_set, List.getElem_set]
  by_cases hpi : i = p
  · rw [if_pos hpi, if_neg (by omega)]
    exact fun hclash => hother q hq (by omega) (clash_symm hclash)
  · rw [if_neg hpi]
    split
    · exact hother p hp (Ne.symm hpi)
    · exact List.pairwise_iff_getElem.mp h p q hp hq hpq

theorem kept_written (h : NoClash next) : (s.written next).Kept :=
  ⟨h, noClash_bare h⟩

theorem kept_start (h : s.Kept) {i : Nat} {start : Start} :
    (s.startSimulatedLocked rules i start).1.Kept := by
  unfold startSimulatedLocked
  split
  · exact h
  · rename_i d hd
    have hset : ∀ boots : Nat, NoClash (s.devices.set i { d with engineBoots := boots }) := by
      intro boots
      refine noClash_congr ?_ h.devices
      obtain ⟨hlt, hget⟩ := List.getElem?_eq_some_iff.mp hd
      have hlt' : i < (s.devices.map Device.listen).length := by simpa using hlt
      have hlisten : Device.listen { d with engineBoots := boots } =
          (s.devices.map Device.listen)[i] := by
        rw [List.getElem_map, hget]
        rfl
      rw [List.map_set, hlisten, List.set_getElem_self]
    dsimp only
    split
    · exact h
    · split
      · exact h
      · split
        · exact kept_written (hset _)
        · exact ⟨hset _, noClash_bare (hset _)⟩

theorem kept_save (h : s.Kept) {writes : Bool} {restart : Start}
    (hok : s.Sound rules (.save d draw writes restart)) :
    (s.saveDevice rules d draw writes restart).1.Kept := by
  unfold saveDevice
  cases hadmitted : s.admitted rules d draw with
  | error err => exact h
  | ok found =>
      obtain ⟨i, d'⟩ := found
      have hspelled := hok i d' hadmitted
      have htexts := (admitted_ok hadmitted).2
      have hd : ∀ other ∈ s.others i, ¬ Clash other d' := fun other hother hclash =>
        htexts other hother (hspelled other hother hclash)
      have hsaved : NoClash (s.saved d' i) := by
        cases i with
        | none => exact noClash_append h.devices hd
        | some i => exact noClash_set h.devices hd
      dsimp only
      split
      · exact h
      · split
        · split
          · exact ⟨h.devices, h.file⟩
          · exact ⟨h.devices, h.file⟩
        · split
          · exact ⟨hsaved, noClash_bare hsaved⟩
          · exact kept_start ⟨hsaved, noClash_bare hsaved⟩

theorem noClash_import (acc : Importing σ φ) (h : NoClash acc.next)
    (hok : ImportSound rules withSecrets acc devices) :
    NoClash (importLoop rules withSecrets acc devices).next := by
  induction devices generalizing acc with
  | nil => exact h
  | cons d devices ih =>
      obtain ⟨d, draw⟩ := d
      refine ih _ ?_ hok.2
      unfold importOne
      split
      · exact h
      · rename_i d' hplaced
        obtain ⟨hspelled, huntaken⟩ := hok.1 d' hplaced
        have hnext := noClash_append h (not_clash hspelled huntaken)
        split
        · exact hnext
        · split
          · exact h
          · exact hnext

theorem kept_perform (h : s.Kept) {op : Op σ φ} (hok : s.Sound rules op) :
    (s.perform rules op).1.Kept := by
  cases op with
  | save d draw writes restart => exact kept_save h hok
  | delete id writes deletes =>
      simp only [perform, deleteDevice]
      split
      · exact h
      · rename_i i _
        have herase : NoClash (s.devices.eraseIdx i) := h.devices.sublist (List.eraseIdx_sublist _ _)
        split
        · exact ⟨h.devices, h.file⟩
        · split
          · exact ⟨herase, noClash_bare herase⟩
          · exact ⟨herase, noClash_bare herase⟩
  | duplicate id name draw gets writes =>
      simp only [perform, duplicateDevice]
      split
      · exact h
      · rename_i d hcopied
        obtain ⟨hspelled, huntaken⟩ := hok d hcopied
        have hnext := noClash_append h.devices (not_clash hspelled huntaken)
        split
        · exact h
        · split
          · split
            · exact ⟨h.devices, h.file⟩
            · exact ⟨h.devices, h.file⟩
          · exact ⟨hnext, noClash_bare hnext⟩
  | setFaults id faults writes sets =>
      simp only [perform, setFaults]
      split
      · exact h
      · split
        · exact h
        · rename_i i _
          split
          · exact h
          · refine kept_written (noClash_congr ?_ h.devices)
            refine List.ext_getElem (by simp) fun j hj hj' => ?_
            simp only [List.getElem_map, List.getElem_modify]
            split <;> rfl
  | importDevices withSecrets devices writes =>
      have hnext := noClash_import { next := s.devices, creds := s.creds } h.devices hok
      simp only [perform, importDevices]
      split
      · exact h
      · split
        · exact ⟨h.devices, h.file⟩
        · split
          · exact ⟨h.devices, h.file⟩
          · exact ⟨hnext, noClash_bare hnext⟩
  | start id start =>
      simp only [perform]
      split
      · exact h
      · exact kept_start h
  | stop id => exact ⟨h.devices, h.file⟩
  | restart reads opens =>
      refine ⟨?_, h.file⟩
      show NoClash (if reads then s.file.map Device.withoutSecrets else [])
      split
      · exact noClash_bare h.file
      · exact List.Pairwise.nil

/-- The service takes a step. -/
def step (rules : Rules σ φ) (s : Service σ φ) (op : Op σ φ) : Option (Service σ φ) :=
  some (s.perform rules op).1

end Service

/-- A machine on which every device is valid. -/
def anything : Rules Unit Unit where
  validate _ := none
  checkFaults _ := true
  newEngineID _ _ := some (octets "engine")
  windows := false

/-- A device of version 2c. -/
def switchAt (id address community : String) : Simulated Unit Unit where
  id := octets id
  name := octets "switch"
  model := octets "switch"
  address := octets address
  port := 1161
  versions := [octets "v2c"]
  community := octets community
  writeCommunity := []
  users := []
  engineID := []
  engineBoots := 0
  traps := {}
  location := []
  contact := []
  faults := ()
  params := []
  overrides := []

/-- A new device is saved, under the ID that is drawn for it. -/
def savedNew (id address community : String) : Op Unit Unit :=
  .save (switchAt "" address community) { id := octets id } true {}

namespace Device

/-- Nothing secret is left. -/
def Bare (d : Simulated σ φ) : Prop :=
  d.community = [] ∧ d.writeCommunity = [] ∧
    (∀ u ∈ d.users, u.authPass = [] ∧ u.privPass = []) ∧ ∀ x ∈ d.traps.destinations, x.community = []

theorem bare_withoutSecrets (d : Simulated σ φ) : Bare d.withoutSecrets :=
  ⟨rfl, rfl, List.forall_mem_map.mpr fun _ _ => ⟨rfl, rfl⟩, List.forall_mem_map.mpr fun _ _ => rfl⟩

end Device

namespace Service

variable {rules : Rules σ φ} {s : Service σ φ} {next : List (Simulated σ φ)}

/-- Neither the list nor the file has a secret. -/
structure Bare (s : Service σ φ) : Prop where
  devices : ∀ d ∈ s.devices, Device.Bare d
  file : ∀ d ∈ s.file, Device.Bare d

theorem bare_append (h : ∀ d ∈ next, Device.Bare d) (d : Simulated σ φ) :
    ∀ e ∈ next ++ [d.withoutSecrets], Device.Bare e :=
  List.forall_mem_append.mpr ⟨h, List.forall_mem_singleton.mpr (Device.bare_withoutSecrets d)⟩

theorem bare_set (h : ∀ d ∈ next, Device.Bare d) {d : Simulated σ φ} (hd : Device.Bare d) (i : Nat) :
    ∀ e ∈ next.set i d, Device.Bare e :=
  fun e he => (List.mem_or_eq_of_mem_set he).elim (h e) fun heq => heq ▸ hd

theorem bare_written (h : ∀ d ∈ next, Device.Bare d) : (s.written next).Bare :=
  ⟨h, List.forall_mem_map.mpr fun d _ => Device.bare_withoutSecrets d⟩

theorem bare_start (h : s.Bare) {i : Nat} {start : Start} :
    (s.startSimulatedLocked rules i start).1.Bare := by
  unfold startSimulatedLocked
  split
  · exact h
  · rename_i d hd
    have hset := fun boots : Nat => bare_written (s := s) (bare_set h.devices
      (d := { d with engineBoots := boots }) (h.devices d (List.mem_of_getElem? hd)) i)
    dsimp only
    split
    · exact h
    · split
      · exact h
      · split
        · exact hset _
        · exact ⟨(hset _).devices, (hset _).file⟩

theorem bare_import (rules : Rules σ φ) (withSecrets : Bool) (devices : List (Simulated σ φ × Draw))
    (acc : Importing σ φ) (h : ∀ d ∈ acc.next, Device.Bare d) :
    ∀ d ∈ (importLoop rules withSecrets acc devices).next, Device.Bare d := by
  induction devices generalizing acc with
  | nil => exact h
  | cons d devices ih =>
      refine ih _ ?_
      unfold importOne
      split
      · exact h
      · split
        · exact bare_append h _
        · split
          · exact h
          · exact bare_append h _

theorem bare_perform (h : s.Bare) (op : Op σ φ) : (s.perform rules op).1.Bare := by
  cases op with
  | save d draw writes restart =>
      simp only [perform, saveDevice]
      split
      · exact h
      · rename_i i d' _
        have hsaved : (s.written (s.saved d' i)).Bare := by
          cases i with
          | none => exact bare_written (bare_append h.devices d')
          | some i => exact bare_written (bare_set h.devices (Device.bare_withoutSecrets d') i)
        split
        · exact h
        · split
          · split <;> exact ⟨h.devices, h.file⟩
          · split
            · exact ⟨hsaved.devices, hsaved.file⟩
            · exact bare_start (s := Service.runs _ d'.id false) ⟨hsaved.devices, hsaved.file⟩
  | delete id writes deletes =>
      simp only [perform, deleteDevice]
      split
      · exact h
      · rename_i i _
        have herase : (s.written (s.devices.eraseIdx i)).Bare :=
          bare_written fun d hd => h.devices d (List.mem_of_mem_eraseIdx hd)
        split
        · exact ⟨h.devices, h.file⟩
        · split <;> exact ⟨herase.devices, herase.file⟩
  | duplicate id name draw gets writes =>
      simp only [perform, duplicateDevice]
      split
      · exact h
      · split
        · exact h
        · split
          · split <;> exact ⟨h.devices, h.file⟩
          · exact bare_written (bare_append h.devices _)
  | setFaults id faults writes sets =>
      simp only [perform, setFaults]
      split
      · exact h
      · split
        · exact h
        · split
          · exact h
          · refine bare_written fun d hd => ?_
            obtain ⟨j, hj⟩ := List.mem_iff_getElem?.mp hd
            rw [List.getElem?_modify] at hj
            obtain ⟨old, hold, rfl⟩ := Option.map_eq_some_iff.mp hj
            have hbare := h.devices old (List.mem_of_getElem? hold)
            split <;> exact hbare
  | importDevices withSecrets devices writes =>
      have hloop := bare_import rules withSecrets devices { next := s.devices, creds := s.creds }
        h.devices
      simp only [perform, importDevices]
      split
      · exact h
      · split
        · exact ⟨h.devices, h.file⟩
        · split
          · exact ⟨h.devices, h.file⟩
          · exact ⟨hloop, (bare_written (s := s) hloop).file⟩
  | start id start =>
      simp only [perform]
      split
      · exact h
      · exact bare_start h
  | stop id => exact ⟨h.devices, h.file⟩
  | restart reads opens =>
      refine ⟨?_, h.file⟩
      simp only [perform]
      split
      · exact (bare_written (s := s) h.file).file
      · exact fun _ hd => nomatch hd

end Service

/-- **Secrets are in the credential store and nowhere else.** -/
theorem nothing_secret_filed (rules : Rules σ φ) {s t : Service σ φ} {ops : List (Op σ φ)}
    (h : s.Bare) (hrun : Run (Service.step rules) (fun _ _ => True) s ops t) : t.Bare :=
  hrun.invariant h fun _ op _ hu _ hstep => Option.some.inj hstep ▸ Service.bare_perform hu op

theorem nothing_secret_filed_saved : ∃ t, Run (Service.step anything) (fun _ _ => True) {}
    [savedNew "a" "127.0.0.2" "public", .start (octets "a") {}] t ∧ t.Bare := by
  have hrun : ∃ t, Run (Service.step anything) (fun _ _ => True) {}
      [savedNew "a" "127.0.0.2" "public", .start (octets "a") {}] t := ⟨_, run_of_exec rfl⟩
  obtain ⟨t, hrun⟩ := hrun
  exact ⟨t, hrun, nothing_secret_filed anything
    ⟨List.forall_mem_nil _, List.forall_mem_nil _⟩ hrun⟩

end SnmpLens.Simulator
