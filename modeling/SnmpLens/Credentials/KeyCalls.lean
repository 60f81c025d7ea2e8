import SnmpLens.Credentials.Custody
import SnmpLens.Lib.Machine

/-!
# Concurrent calls for the key

The calls of `internal/app/settings.go` once more, step by step, any number of them at a
time. `settingsKey` is under the mutex from its first line to its last. `SettingsAdoptKey`
reads and writes the store outside it and takes it for the cache alone; `SettingsForgetKey`
clears the cache under it and deletes the key after; a value is sealed after it is released.

A step is atomic: one call of the credential store, one line under the mutex, one value. What
has been sealed and not been forgotten since is kept for the proof only (`live`).
-/

namespace SnmpLens.Credentials

open Utf8 Machine

/-- A value to be sealed, and the nonce it is sealed with. -/
structure Task where
  nonce : Nonce
  plain : Octets

/-- What a call wants the key for. -/
inductive Job where
  | seal_ (values : List Task)
  | open_

/-- Where a call is. -/
inductive Call (κ : Type) where
  | idle
  /-- `settingsKey` waits for the mutex. -/
  | waiting (job : Job)
  /-- It holds the mutex and looks at the cache. -/
  | looking (job : Job)
  /-- It is about to `Get`. -/
  | reading (job : Job)
  /-- There was no key: it is about to `Set` the one it has made. -/
  | making (k : κ) (job : Job)
  /-- It is about to cache the stored key. -/
  | caching (k : κ) (job : Job)
  /-- The mutex is released; the values are sealed one by one, or opened. -/
  | holding (k : κ) (job : Job)
  /-- `SettingsAdoptKey` is about to `Get`. -/
  | adopting (k : κ)
  /-- There was no key: it is about to `Set`. -/
  | handing (k : κ)
  /-- It is about to read the key back. -/
  | verifying (k : κ)
  /-- It waits for the mutex to cache the key. -/
  | adopted (k : κ)
  /-- `SettingsForgetKey` waits for the mutex to clear the cache. -/
  | forgetting
  /-- It is about to `Delete`. -/
  | deleting

/-- What has been sealed: under which key, and what. -/
structure Secret (κ : Type) where
  key : κ
  task : Task

/-- The process and the credential store. -/
structure Process (κ : Type) where
  store : Option κ := none
  cache : Option κ := none
  /-- The call that holds `settingsKeyMu`. -/
  mutex : Option Nat := none
  calls : Nat → Call κ := fun _ => .idle
  live : List (Secret κ) := []
  /-- An adoption has replaced another key. -/
  replaced : Bool := false

/-- What is done next: a call begins, or goes a step, with what the store and `rand` answer. -/
inductive Act (κ : Type) where
  | seal_ (p : Nat) (values : List Task)
  | open_ (p : Nat)
  | adopt (p : Nat) (k : κ)
  | forget (p : Nat)
  | go (p : Nat) (fails : Bool) (fresh : κ)

namespace Process

variable {κ : Type} [DecidableEq κ]

/-- A call gets to another line. -/
def at_ (p : Nat) (c : Call κ) (s : Process κ) : Process κ :=
  { s with calls := fun q => if q = p then c else s.calls q }

/-- `settingsKey` returns, and releases the mutex. -/
def leave (p : Nat) (c : Call κ) (s : Process κ) : Process κ :=
  { s.at_ p c with mutex := none }

/-- A call begins. -/
def begin_ (p : Nat) (c : Call κ) (s : Process κ) : Option (Process κ) :=
  match s.calls p with
  | .idle => some (s.at_ p c)
  | _ => none

/-- A call goes a step. -/
def go (p : Nat) (fails : Bool) (fresh : κ) (s : Process κ) : Option (Process κ) :=
  match s.calls p with
  | .idle => none
  | .waiting job =>
      if s.mutex = none then some { s.at_ p (.looking job) with mutex := some p } else none
  | .looking job =>
      match s.cache with
      | some k => some (s.leave p (.holding k job))
      | none => some (s.at_ p (.reading job))
  | .reading job =>
      if fails then some (s.leave p .idle)
      else
        match s.store with
        | some k => some (s.at_ p (.caching k job))
        | none => some (s.at_ p (.making fresh job))
  | .making k job =>
      if fails then some (s.leave p .idle)
      else some { s.at_ p (.caching k job) with store := some k }
  | .caching k job => some { s.leave p (.holding k job) with cache := some k }
  | .holding _ .open_ => some (s.at_ p .idle)
  | .holding _ (.seal_ []) => some (s.at_ p .idle)
  | .holding k (.seal_ (task :: rest)) =>
      if fails then some (s.at_ p .idle)
      else some { s.at_ p (.holding k (.seal_ rest)) with live := ⟨k, task⟩ :: s.live }
  | .adopting k =>
      if fails then some (s.at_ p .idle)
      else
        match s.store with
        | some existing =>
            if existing = k then some (s.at_ p (.adopted k)) else some (s.at_ p .idle)
        | none => some (s.at_ p (.handing k))
  | .handing k =>
      if fails then some (s.at_ p .idle)
      else some { s.at_ p (.verifying k) with
        store := some k
        replaced := s.replaced || decide (s.store ≠ none ∧ s.store ≠ some k) }
  | .verifying k =>
      if fails = false ∧ s.store = some k then some (s.at_ p (.adopted k)) else some (s.at_ p .idle)
  | .adopted k => if s.mutex = none then some { s.at_ p .idle with cache := some k } else none
  | .forgetting => if s.mutex = none then some { s.at_ p .deleting with cache := none } else none
  | .deleting =>
      if fails then some (s.at_ p .idle) else some { s.at_ p .idle with store := none, live := [] }

def step (s : Process κ) : Act κ → Option (Process κ)
  | .seal_ p values => s.begin_ p (.waiting (.seal_ values))
  | .open_ p => s.begin_ p (.waiting .open_)
  | .adopt p k => s.begin_ p (.adopting k)
  | .forget p => s.begin_ p .forgetting
  | .go p fails fresh => s.go p fails fresh

/-! ## What is said of a run -/

/-- No call is in progress. -/
def Quiet (s : Process κ) : Prop := ∀ p, s.calls p = .idle

/-- **The cached key is the stored one**, so what was sealed opens after a restart, and no key
that is adopted has replaced another. -/
structure Custodial (g : Aead κ) (s : Process κ) : Prop where
  cached : s.Quiet → ∀ k, s.cache = some k → s.store = some k
  opens : ∀ x ∈ s.live, ∀ a : Access κ, a.present = true → a.getFails = false →
    ∃ k, (settingsKey a { store := s.store }).1 = some k ∧
      openValue g k (sealed g x.key x.task.nonce x.task.plain) = some x.task.plain
  replaced : s.replaced = false

/-- A step that acts on what still is so: nothing is written over a key that has come since the
store was read, no key is cached or sealed with that has gone since, and none is deleted that
has been cached again. -/
def Fresh (s : Process κ) : Act κ → Prop
  | .go p fails _ =>
      match s.calls p with
      | .making _ _ => fails = false → s.store = none
      | .handing k => fails = false → s.store = none ∨ s.store = some k
      | .caching k _ => s.store = some k
      | .adopted k => s.store = some k
      | .holding k (.seal_ (_ :: _)) => fails = false → s.store = some k
      | .deleting => fails = false → s.cache = none
      | _ => True
  | _ => True

/-! ## The invariant -/

structure Coherent (s : Process κ) : Prop where
  cached : ∀ k, s.cache = some k → s.store = some k
  live : ∀ x ∈ s.live, s.store = some x.key
  replaced : s.replaced = false

section

variable {s t : Process κ} {p : Nat} {c : Call κ}

omit [DecidableEq κ] in
theorem Coherent.at_ (h : Coherent s) (p : Nat) (c : Call κ) : Coherent (s.at_ p c) :=
  ⟨h.cached, h.live, h.replaced⟩

omit [DecidableEq κ] in
theorem Coherent.leave (h : Coherent s) (p : Nat) (c : Call κ) : Coherent (s.leave p c) :=
  ⟨h.cached, h.live, h.replaced⟩

omit [DecidableEq κ] in
/-- A key that is stored may be cached. -/
theorem Coherent.cache (h : Coherent s) {k : κ} (hstore : s.store = some k) :
    Coherent { s with cache := some k } :=
  ⟨fun _ hj => hj ▸ hstore, h.live, h.replaced⟩

omit [DecidableEq κ] in
/-- With no key stored none is cached, and nothing is live. -/
theorem Coherent.empty (h : Coherent s) (hstore : s.store = none) :
    s.cache = none ∧ s.live = [] := by
  constructor
  · cases hc : s.cache with
    | none => rfl
    | some k =>
        have := h.cached k hc
        rw [hstore] at this
        cases this
  · cases hl : s.live with
    | nil => rfl
    | cons x rest =>
        have := h.live x (by rw [hl]; exact List.mem_cons_self)
        rw [hstore] at this
        cases this

omit [DecidableEq κ] in
/-- A key may be stored where there is none. -/
theorem Coherent.store (h : Coherent s) (hstore : s.store = none) (k : κ) :
    Coherent { s with store := some k } := by
  obtain ⟨hcache, hlive⟩ := h.empty hstore
  refine ⟨fun j hj => ?_, fun x hx => ?_, h.replaced⟩
  · change s.cache = some j at hj
    rw [hcache] at hj
    cases hj
  · change x ∈ s.live at hx
    rw [hlive] at hx
    cases hx

theorem coherent_go (h : Coherent s) {fails : Bool} {fresh : κ}
    (hfresh : Fresh s (.go p fails fresh)) (hstep : s.go p fails fresh = some t) : Coherent t := by
  unfold go at hstep
  unfold Fresh at hfresh
  dsimp only at hfresh
  cases hcall : s.calls p <;> rw [hcall] at hstep hfresh <;> dsimp only at hstep hfresh
  case idle =>
    cases hstep
  case waiting job =>
    obtain ⟨_, hstep⟩ := Option.ite_none_right_eq_some.mp hstep
    obtain rfl := Option.some.inj hstep
    exact ⟨h.cached, h.live, h.replaced⟩
  case looking job =>
    split at hstep
    · obtain rfl := Option.some.inj hstep
      exact h.leave _ _
    · obtain rfl := Option.some.inj hstep
      exact h.at_ _ _
  case reading job =>
    split at hstep
    · obtain rfl := Option.some.inj hstep
      exact h.leave _ _
    · split at hstep <;>
        (obtain rfl := Option.some.inj hstep; exact h.at_ _ _)
  case making k job =>
    split at hstep
    · obtain rfl := Option.some.inj hstep
      exact h.leave _ _
    · rename_i hfails
      obtain rfl := Option.some.inj hstep
      exact (h.at_ p (.caching k job)).store (hfresh (by simpa using hfails)) k
  case caching k job =>
    obtain rfl := Option.some.inj hstep
    exact (h.leave p (.holding k job)).cache hfresh
  case holding k job =>
    cases job with
    | open_ =>
        obtain rfl := Option.some.inj hstep
        exact h.at_ _ _
    | seal_ values =>
        cases values with
        | nil =>
            obtain rfl := Option.some.inj hstep
            exact h.at_ _ _
        | cons task rest =>
            dsimp only at hstep hfresh
            split at hstep
            · obtain rfl := Option.some.inj hstep
              exact h.at_ _ _
            · rename_i hfails
              obtain rfl := Option.some.inj hstep
              refine ⟨h.cached, fun x hx => ?_, h.replaced⟩
              rcases List.mem_cons.mp hx with rfl | hx
              · exact hfresh (by simpa using hfails)
              · exact h.live x hx
  case adopting k =>
    split at hstep
    · obtain rfl := Option.some.inj hstep
      exact h.at_ _ _
    · split at hstep
      · split at hstep <;>
          (obtain rfl := Option.some.inj hstep; exact h.at_ _ _)
      · obtain rfl := Option.some.inj hstep
        exact h.at_ _ _
  case handing k =>
    split at hstep
    · obtain rfl := Option.some.inj hstep
      exact h.at_ _ _
    · rename_i hfails
      obtain rfl := Option.some.inj hstep
      have hstore := hfresh (by simpa using hfails)
      have hreplaced : (s.replaced || decide (s.store ≠ none ∧ s.store ≠ some k)) = false := by
        rw [h.replaced, Bool.false_or, decide_eq_false_iff_not]
        rintro ⟨hnone, hsome⟩
        exact hstore.elim hnone hsome
      rcases hstore with hnone | hsame
      · have := (h.at_ p (.verifying k)).store hnone k
        exact ⟨this.cached, this.live, hreplaced⟩
      · -- the key is written over itself
        refine ⟨fun j hj => ?_, fun x hx => ?_, hreplaced⟩
        · exact hsame.symm.trans (h.cached j hj)
        · exact hsame.symm.trans (h.live x hx)
  case verifying k =>
    split at hstep <;>
      (obtain rfl := Option.some.inj hstep; exact h.at_ _ _)
  case adopted k =>
    obtain ⟨_, hstep⟩ := Option.ite_none_right_eq_some.mp hstep
    obtain rfl := Option.some.inj hstep
    exact (h.at_ p .idle).cache hfresh
  case forgetting =>
    obtain ⟨_, hstep⟩ := Option.ite_none_right_eq_some.mp hstep
    obtain rfl := Option.some.inj hstep
    exact ⟨fun j hj => (by cases hj), h.live, h.replaced⟩
  case deleting =>
    split at hstep
    · obtain rfl := Option.some.inj hstep
      exact h.at_ _ _
    · rename_i hfails
      obtain rfl := Option.some.inj hstep
      have hcache := hfresh (by simpa using hfails)
      refine ⟨fun j hj => ?_, fun x hx => (by cases hx), h.replaced⟩
      change s.cache = some j at hj
      rw [hcache] at hj
      cases hj

omit [DecidableEq κ] in
theorem coherent_begin (h : Coherent s) (hstep : s.begin_ p c = some t) : Coherent t := by
  unfold begin_ at hstep
  split at hstep
  · obtain rfl := Option.some.inj hstep
    exact h.at_ p c
  · cases hstep

theorem coherent_step {a : Act κ} (h : Coherent s) (hfresh : Fresh s a)
    (hstep : s.step a = some t) : Coherent t := by
  cases a with
  | seal_ p values => exact coherent_begin h hstep
  | open_ p => exact coherent_begin h hstep
  | adopt p k => exact coherent_begin h hstep
  | forget p => exact coherent_begin h hstep
  | go p fails fresh => exact coherent_go h hfresh hstep

omit [DecidableEq κ] in
theorem Coherent.custodial (h : Coherent s) (g : Aead κ) : Custodial g s where
  cached := fun _ => h.cached
  opens := by
    intro x hx a hpresent hget
    have hstore := h.live x hx
    refine ⟨x.key, ?_, openValue_sealed g x.key x.task.nonce x.task.plain⟩
    exact settingsKey_answers (fun j hj => by cases hj) hpresent hget hstore
  replaced := h.replaced

end

end Process

/-- A call is gone through, as often as that. -/
def goes (p n : Nat) : List (Act UInt8) := List.replicate n (.go p false 7)

def secret : Task := { nonce := ⟨List.replicate 12 1, rfl⟩, plain := octets "public" }

/-- The cache is cleared, the stored key is read into it again, and the key is deleted. -/
def readBetween : List (Act UInt8) :=
  .forget 0 :: goes 0 1 ++ .open_ 1 :: goes 1 5 ++ goes 0 1

end SnmpLens.Credentials
