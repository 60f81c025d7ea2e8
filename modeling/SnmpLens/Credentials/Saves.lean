import Mathlib.Data.List.Pairwise
import SnmpLens.Credentials.Sealing

/-!
# Saves, and the start they race with

`settingsStore.js` as its promises resolve. A save publishes its settings at once, and writes
the blob when `SettingsSeal` has answered, whichever save that was; the start decrypts the
blob it found and publishes that when it is done, whatever was published before. Nothing
orders the answers, so the last save wins where the answers happen to come in order.

`saves` and `written` are for the proof only: every save that was called, and what was
written for which.
-/

namespace SnmpLens.Credentials

open Utf8 Machine

/-- How far the start's `decryptSettings` is, or `initCredentialState`. -/
inductive Phase where
  /-- `SettingsKeyStatus` is to answer. -/
  | status
  /-- The legacy key is dealt with. -/
  | migration (usable : Bool)
  /-- `SettingsOpen` is to answer. -/
  | opening
  | settled
deriving DecidableEq, Repr

/-- The renderer, between two tasks. -/
structure Window where
  /-- What the store has published. -/
  memory : Settings
  status : Status := .ok
  /-- `settings` in localStorage. -/
  blob : Option Settings
  /-- What the start has read there. -/
  raw : Option Settings
  phase : Phase := .status
  /-- The saves whose `SettingsSeal` has not answered, by their number. -/
  sealing : List (Nat × Settings) := []
  /-- What is written before the next task: the carried-forward settings of some saves. -/
  writing : List (Nat × Settings) := []
  saves : List Settings := []
  written : List (Nat × Settings) := []
deriving DecidableEq

/-- A window that has just been loaded. -/
def Window.load (raw : Option Settings) : Window :=
  { memory := raw.getD defaults, blob := raw, raw }

/-- What happens next. The answers are the bridge's: `none` is a rejection. -/
inductive Turn where
  | save (settings : Settings)
  /-- A carried-forward blob is written. -/
  | write
  | sealed (i : Nat) (answer : Option (List Octets))
  | status (wrong : Option Status)
  | migrated
  | opened (answer : Option (List Octets))

namespace Window

/-- `settingsStore.save`, as far as its first `await`. -/
def save (settings : Settings) (w : Window) : Window :=
  if w.status ≠ .ok then
    { w with
      memory := settings
      saves := w.saves ++ [settings]
      writing := w.writing ++ [(w.saves.length, carryForward settings w.blob)] }
  else
    { w with
      memory := settings
      saves := w.saves ++ [settings]
      sealing := w.sealing ++ [(w.saves.length, settings)] }

/-- `localStorage.setItem`, for the save of a number. -/
def put (i : Nat) (settings : Settings) (w : Window) : Window :=
  { w with blob := some settings, written := w.written ++ [(i, settings)] }

/-- The `SettingsSeal` of a save has answered. -/
def sealed (i : Nat) (answer : Option (List Octets)) (w : Window) : Option Window :=
  match w.sealing.find? fun x => x.1 = i with
  | none => none
  | some (_, settings) =>
      let w := { w with sealing := w.sealing.filter fun x => x.1 ≠ i }
      match answer with
      | none => some w
      | some values =>
          if values.length = settings.values.length then
            some (w.put i (settings.withSealed values))
          else none

/-- The start is done, and publishes what it has made of the blob. -/
def settle (memory : Settings) (status : Status) (w : Window) : Window :=
  { w with memory, status, phase := .settled }

/-- What follows once the legacy key is dealt with. -/
def migrated (usable : Bool) (w : Window) : Window :=
  match w.raw with
  | none => { w with phase := .settled }
  | some raw =>
      if raw.values.any isEncrypted = false then
        w.settle raw (if usable then .ok else w.status)
      else if usable = false then w.settle (blankSealed raw) w.status
      else { w with phase := .opening }

/-- `SettingsOpen` of the blob has answered. -/
def opened (answer : Option (List Octets)) (w : Window) : Option Window :=
  match w.raw with
  | none => none
  | some raw =>
      match answer with
      | none => some (w.settle (blankSealed raw) .locked)
      | some values =>
          if values.length = raw.values.length then some (w.settle (raw.fill values) .ok) else none

/-- One turn. What a save has left to be written goes before any other answer. -/
def step (w : Window) : Turn → Option Window
  | .save settings => some (w.save settings)
  | .write =>
      match w.writing with
      | [] => none
      | (i, settings) :: rest => some ({ w with writing := rest }.put i settings)
  | .sealed i answer => if w.writing = [] then w.sealed i answer else none
  | .status wrong =>
      if w.writing = [] ∧ w.phase = .status then
        some { w with status := wrong.getD w.status, phase := .migration wrong.isNone }
      else none
  | .migrated =>
      match w.phase with
      | .migration usable => if w.writing = [] then some (w.migrated usable) else none
      | _ => none
  | .opened answer => if w.writing = [] ∧ w.phase = .opening then w.opened answer else none

/-! ## What is said of a run -/

/-- Everything has settled. -/
structure Settled (w : Window) : Prop where
  phase : w.phase = .settled
  sealing : w.sealing = []
  writing : w.writing = []

/-- What a save of `settings` may write: its sealed form, or with the stored credentials where
they could not be opened. -/
def Form (settings written : Settings) : Prop :=
  (∃ values, values.length = settings.values.length ∧ written = settings.withSealed values) ∨
    ∃ blob, written = carryForward settings blob

/-- **The last save wins.** -/
structure LastWins (w w' : Window) : Prop where
  memory : ∀ x ∈ w'.saves.getLast?, w'.memory = x
  blob : ∀ d ∈ w'.written, (∀ d' ∈ w'.written, d'.1 ≤ d.1) → w'.blob = some d.2
  form : ∀ d ∈ w'.written, ∃ x, w'.saves[d.1]? = some x ∧ Form x d.2
  unwritten : w'.written = [] → w'.blob = w.blob

/-- A turn that overtakes nothing: the start publishes before anything is saved, and a save is
written only while no later one is. -/
def InOrder (w : Window) : Turn → Prop
  | .sealed i (some _) => ∀ d ∈ w.written, d.1 < i
  | .migrated =>
      ∀ raw ∈ w.raw, (raw.values.any isEncrypted = false ∨ w.phase = .migration false) → w.saves = []
  | .opened _ => w.saves = []
  | _ => True

/-! ## The invariant -/

/-- What is written and what is about to be, in the order of the saves. -/
def line (w : Window) : List (Nat × Settings) := w.written ++ w.writing

structure Ordered (blob : Option Settings) (w : Window) : Prop where
  memory : ∀ x ∈ w.saves.getLast?, w.memory = x
  order : w.line.Pairwise fun a b => a.1 < b.1
  form : ∀ d ∈ w.line, ∃ x, w.saves[d.1]? = some x ∧ Form x d.2
  sealing : ∀ d ∈ w.sealing, w.saves[d.1]? = some d.2
  last : w.blob = (w.written.getLast?.map Prod.snd).or blob

section

variable {w w' : Window} {blob : Option Settings}

theorem ordered_load (raw : Option Settings) : Ordered raw (load raw) where
  memory := fun x hx => by cases hx
  order := .nil
  form := fun d hd => by cases hd
  sealing := fun d hd => by cases hd
  last := rfl

theorem getElem?_saves {xs : List Settings} {i : Nat} {x y : Settings} (h : xs[i]? = some x) :
    (xs ++ [y])[i]? = some x := by
  obtain ⟨hi, _⟩ := List.getElem?_eq_some_iff.mp h
  rw [List.getElem?_append_left hi, h]

theorem ordered_save (h : Ordered blob w) (settings : Settings) :
    Ordered blob (w.save settings) := by
  have hmemory : ∀ x ∈ (w.saves ++ [settings]).getLast?, settings = x := by
    intro x hx
    rw [List.getLast?_concat] at hx
    exact Option.some.inj hx
  have hform : ∀ d ∈ w.line, ∃ x, (w.saves ++ [settings])[d.1]? = some x ∧ Form x d.2 := by
    intro d hd
    obtain ⟨x, hx, hf⟩ := h.form d hd
    exact ⟨x, getElem?_saves hx, hf⟩
  have hsealing : ∀ d ∈ w.sealing, (w.saves ++ [settings])[d.1]? = some d.2 := fun d hd =>
    getElem?_saves (h.sealing d hd)
  have hlast : (w.saves ++ [settings])[w.saves.length]? = some settings := by
    rw [List.getElem?_append_right (Nat.le_refl _), Nat.sub_self]
    rfl
  unfold save
  by_cases hstatus : w.status ≠ .ok
  · rw [if_pos hstatus]
    have hline : w.written ++ (w.writing ++ [(w.saves.length, carryForward settings w.blob)]) =
        w.line ++ [(w.saves.length, carryForward settings w.blob)] := (List.append_assoc ..).symm
    refine ⟨hmemory, ?_, ?_, hsealing, h.last⟩
    · -- its number is above every number there is
      show (w.written ++ _).Pairwise _
      rw [hline, List.pairwise_append]
      refine ⟨h.order, List.pairwise_singleton _ _, fun a ha b hb => ?_⟩
      obtain rfl := List.mem_singleton.mp hb
      obtain ⟨x, hx, _⟩ := h.form a ha
      exact (List.getElem?_eq_some_iff.mp hx).1
    · intro d hd
      change d ∈ w.written ++ _ at hd
      rw [hline] at hd
      rcases List.mem_append.mp hd with hd | hd
      · exact hform d hd
      · obtain rfl := List.mem_singleton.mp hd
        exact ⟨settings, hlast, .inr ⟨_, rfl⟩⟩
  · rw [if_neg hstatus]
    refine ⟨hmemory, h.order, hform, ?_, h.last⟩
    intro d hd
    rcases List.mem_append.mp hd with hd | hd
    · exact hsealing d hd
    · obtain rfl := List.mem_singleton.mp hd
      exact hlast

theorem ordered_put {rest : List (Nat × Settings)} {sealing : List (Nat × Settings)} {i : Nat}
    {settings : Settings} (h : Ordered blob w)
    (horder : (w.written ++ (i, settings) :: rest).Pairwise fun a b => a.1 < b.1)
    (hform : ∀ d ∈ w.written ++ (i, settings) :: rest, ∃ x, w.saves[d.1]? = some x ∧ Form x d.2)
    (hsealing : ∀ d ∈ sealing, w.saves[d.1]? = some d.2) :
    Ordered blob ({ w with writing := rest, sealing }.put i settings) := by
  have hline : (w.written ++ [(i, settings)]) ++ rest = w.written ++ (i, settings) :: rest := by
    rw [List.append_assoc]
    rfl
  refine ⟨h.memory, ?_, ?_, hsealing, ?_⟩
  · show ((w.written ++ [(i, settings)]) ++ rest).Pairwise _
    rw [hline]
    exact horder
  · intro d hd
    change d ∈ (w.written ++ [(i, settings)]) ++ rest at hd
    rw [hline] at hd
    exact hform d hd
  · show some settings = ((w.written ++ [(i, settings)]).getLast?.map Prod.snd).or blob
    rw [List.getLast?_concat]
    rfl

theorem ordered_sealed (h : Ordered blob w) {i : Nat} {answer : Option (List Octets)}
    (hwriting : w.writing = []) (hinOrder : InOrder w (.sealed i answer))
    (hstep : w.sealed i answer = some w') : Ordered blob w' := by
  unfold sealed at hstep
  have hsealing : ∀ d ∈ w.sealing.filter fun x => x.1 ≠ i, w.saves[d.1]? = some d.2 := fun d hd =>
    h.sealing d (List.mem_filter.mp hd).1
  cases hfind : w.sealing.find? fun x => x.1 = i with
  | none =>
      rw [hfind] at hstep
      cases hstep
  | some x =>
      obtain ⟨j, settings⟩ := x
      rw [hfind] at hstep
      obtain rfl : j = i := by simpa using List.find?_some hfind
      have hsave := h.sealing _ (List.mem_of_find?_eq_some hfind)
      cases answer with
      | none =>
          obtain rfl := Option.some.inj hstep
          exact ⟨h.memory, h.order, h.form, hsealing, h.last⟩
      | some values =>
          dsimp only at hstep
          by_cases hlen : values.length = settings.values.length
          · rw [if_pos hlen] at hstep
            obtain rfl := Option.some.inj hstep
            have hline : w.line = w.written := by
              unfold line
              rw [hwriting, List.append_nil]
            have horder := h.order
            have hform := h.form
            rw [hline] at horder hform
            have hput := @ordered_put _ _ [] _ j (settings.withSealed values) h
              (List.pairwise_append.mpr ⟨horder, List.pairwise_singleton _ _, fun a ha b hb => by
                obtain rfl := List.mem_singleton.mp hb
                exact hinOrder a ha⟩) (fun d hd => by
                rcases List.mem_append.mp hd with hd | hd
                · exact hform d hd
                · obtain rfl := List.mem_singleton.mp hd
                  exact ⟨settings, hsave, .inl ⟨values, hlen, rfl⟩⟩) hsealing
            rw [← hwriting] at hput
            exact hput
          · rw [if_neg hlen] at hstep
            cases hstep

/-- A start that is done before anything is saved publishes over nothing. -/
theorem ordered_settle (h : Ordered blob w) (hnone : w.saves = []) (memory : Settings)
    (status : Status) : Ordered blob (w.settle memory status) where
  memory := fun x hx => by
    change x ∈ w.saves.getLast? at hx
    rw [hnone] at hx
    cases hx
  order := h.order
  form := h.form
  sealing := h.sealing
  last := h.last

/-- A change that is none of the saves'. -/
theorem Ordered.frame (h : Ordered blob w) (phase : Phase) (status : Status) :
    Ordered blob { w with phase, status } :=
  ⟨h.memory, h.order, h.form, h.sealing, h.last⟩

theorem ordered_step {turn : Turn} (h : Ordered blob w) (hinOrder : InOrder w turn)
    (hstep : w.step turn = some w') : Ordered blob w' := by
  cases turn with
  | save settings =>
      obtain rfl := Option.some.inj hstep
      exact ordered_save h settings
  | write =>
      unfold step at hstep
      dsimp only at hstep
      cases hwriting : w.writing with
      | nil =>
          rw [hwriting] at hstep
          cases hstep
      | cons d rest =>
          rw [hwriting] at hstep
          obtain rfl := Option.some.inj hstep
          have horder := h.order
          have hform := h.form
          unfold line at horder hform
          rw [hwriting] at horder hform
          exact ordered_put h horder hform h.sealing
  | sealed i answer =>
      obtain ⟨hwriting, hstep⟩ := Option.ite_none_right_eq_some.mp hstep
      exact ordered_sealed h hwriting hinOrder hstep
  | status wrong =>
      obtain ⟨_, hstep⟩ := Option.ite_none_right_eq_some.mp hstep
      obtain rfl := Option.some.inj hstep
      exact h.frame _ _
  | migrated =>
      unfold step at hstep
      dsimp only at hstep
      split at hstep
      · rename_i usable hphase
        obtain ⟨_, hstep⟩ := Option.ite_none_right_eq_some.mp hstep
        obtain rfl := Option.some.inj hstep
        unfold migrated
        split
        · exact h.frame .settled w.status
        · rename_i raw hraw
          by_cases hplain : raw.values.any isEncrypted = false
          · rw [if_pos hplain]
            exact ordered_settle h (hinOrder raw hraw (.inl hplain)) _ _
          · rw [if_neg hplain]
            by_cases husable : usable = false
            · rw [if_pos husable]
              exact ordered_settle h (hinOrder raw hraw (.inr (by rw [hphase, husable]))) _ _
            · rw [if_neg husable]
              exact h.frame .opening w.status
      · cases hstep
  | opened answer =>
      obtain ⟨_, hstep⟩ := Option.ite_none_right_eq_some.mp hstep
      unfold opened at hstep
      cases hraw : w.raw with
      | none =>
          rw [hraw] at hstep
          cases hstep
      | some raw =>
          rw [hraw] at hstep
          cases answer with
          | none =>
              obtain rfl := Option.some.inj hstep
              exact ordered_settle h hinOrder _ _
          | some values =>
              obtain ⟨_, hstep⟩ := Option.ite_none_right_eq_some.mp hstep
              obtain rfl := Option.some.inj hstep
              exact ordered_settle h hinOrder _ _

/-- The latest of what was written is the last of it. -/
theorem Ordered.latest (h : Ordered blob w) {d : Nat × Settings} (hd : d ∈ w.written)
    (hlatest : ∀ d' ∈ w.written, d'.1 ≤ d.1) : w.written.getLast? = some d := by
  have horder : w.written.Pairwise fun a b => a.1 < b.1 :=
    h.order.sublist (List.sublist_append_left ..)
  obtain ⟨front, back, hsplit⟩ := List.append_of_mem hd
  cases back with
  | nil => rw [hsplit, List.getLast?_concat]
  | cons d' back =>
      rw [hsplit] at horder hlatest
      have hlt : d.1 < d'.1 :=
        (List.pairwise_cons.mp (List.pairwise_append.mp horder).2.1).1 d' List.mem_cons_self
      have hle := hlatest d' (by simp)
      omega

theorem Ordered.wins (h : Ordered w.blob w') : LastWins w w' where
  memory := h.memory
  blob := fun d hd hlatest => by rw [h.last, h.latest hd hlatest]; rfl
  form := fun d hd => h.form d (List.mem_append_left _ hd)
  unwritten := fun hnone => by rw [h.last, hnone]; rfl

end

end Window

def one : Settings := { defaults with community := octets "one" }

def two : Settings := { defaults with community := octets "two" }

/-- What `SettingsSeal` may answer for either. -/
def answerOf (s : String) : Option (List Octets) := some [octets s, [], []]

/-- Two saves on a fresh profile; the answers come in order. -/
def inTurn : List Turn :=
  [.status none, .migrated, .save one, .save two, .sealed 0 (answerOf "enc:1"),
    .sealed 1 (answerOf "enc:2")]

/-- The same two saves; the answer to the first comes last. -/
def overtaken : List Turn :=
  [.status none, .migrated, .save one, .save two, .sealed 1 (answerOf "enc:2"),
    .sealed 0 (answerOf "enc:1")]

/-- A blob whose community is sealed. -/
def stored : Settings := { defaults with community := octets "enc:0" }

/-- A save while the stored blob is still being opened. -/
def tooEarly : List Turn :=
  [.save one, .status none, .migrated, .opened (answerOf "zero"), .sealed 0 (answerOf "enc:1")]

end SnmpLens.Credentials
