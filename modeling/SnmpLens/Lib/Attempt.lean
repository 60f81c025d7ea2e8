import Mathlib.Logic.Basic

/-!
# Computations that may fail, on a state that survives the failure

`Attempt ε σ α` returns a value or an error, and the state in either case. Three
judgements about it, each with one rule for every way such computations are put
together:

* `Meets I m Q E`, of one computation: from a state with `I` a value comes with
  `Q` and an error with `E`.
* `Ends m s Q E`, of one computation from one state: the same, and exactly, so that
  it is computed from the end of a program to its beginning.
* `Agree S V E m m'`, of two: from states related by `S` both return values
  related by `V`, or both return errors related by `E`, and the states stay
  related.
-/

variable {ε σ α β : Type}

def Attempt (ε σ α : Type) := σ → Except ε α × σ

namespace Attempt

protected def pure (a : α) : Attempt ε σ α := fun s => (.ok a, s)

protected def bind (m : Attempt ε σ α) (f : α → Attempt ε σ β) : Attempt ε σ β := fun s =>
  match m s with
  | (.ok a, s) => f a s
  | (.error e, s) => (.error e, s)

instance : Monad (Attempt ε σ) where
  pure := Attempt.pure
  bind := Attempt.bind

def fail (e : ε) : Attempt ε σ α := fun s => (.error e, s)

/-- A result that is there already. -/
def ofExcept (r : Except ε α) : Attempt ε σ α := fun s => (r, s)

/-- The error, seen through `f`. -/
def mapError (f : ε → ε) (m : Attempt ε σ α) : Attempt ε σ α := fun s =>
  match m s with
  | (.ok a, s) => (.ok a, s)
  | (.error e, s) => (.error (f e), s)

/-- The result as a value, an error among them. -/
def result (m : Attempt ε σ α) : Attempt ε σ (Except ε α) := fun s => (.ok (m s).1, (m s).2)

def get : Attempt ε σ σ := fun s => (.ok s, s)

def modify (f : σ → σ) : Attempt ε σ Unit := fun s => (.ok (), f s)

/-- What is done about an error, on the state that survived it. -/
def rescue (m : Attempt ε σ α) (h : ε → Attempt ε σ α) : Attempt ε σ α := fun s =>
  match m s with
  | (.ok a, s) => (.ok a, s)
  | (.error e, s) => h e s

/-! ## One computation -/

/-- From a state with `I`, a value comes with `Q` and an error with `E`. -/
def Meets (I : σ → Prop) (m : Attempt ε σ α) (Q : α → σ → Prop) (E : ε → σ → Prop) : Prop :=
  ∀ s, I s → (∀ a, (m s).1 = .ok a → Q a (m s).2) ∧ (∀ e, (m s).1 = .error e → E e (m s).2)

variable {f : α → Attempt ε σ β}

section

variable {I : σ → Prop} {m : Attempt ε σ α} {Q Q' : α → σ → Prop} {E E' : ε → σ → Prop}

theorem bind_of_ok {s t : σ} {a : α} (h : m s = (.ok a, t)) :
    (m >>= f) s = f a t := by
  change Attempt.bind m f s = f a t
  unfold Attempt.bind
  rw [h]

theorem bind_of_error {s t : σ} {e : ε} (h : m s = (.error e, t)) :
    (m >>= f) s = (.error e, t) := by
  change Attempt.bind m f s = (.error e, t)
  unfold Attempt.bind
  rw [h]

theorem Meets.mono (h : Meets I m Q E) (hQ : ∀ a s, Q a s → Q' a s)
    (hE : ∀ e s, E e s → E' e s) : Meets I m Q' E' :=
  fun s hs => ⟨fun a ha => hQ _ _ ((h s hs).1 a ha), fun e he => hE _ _ ((h s hs).2 e he)⟩

theorem Meets.pure {a : α} (h : ∀ s, I s → Q a s) :
    Meets I (Pure.pure a : Attempt ε σ α) Q E := by
  intro s hs
  refine ⟨fun b hb => ?_, fun e he => ?_⟩
  · cases hb
    exact h s hs
  · cases he

theorem Meets.fail {e : ε} (h : ∀ s, I s → E e s) :
    Meets I (Attempt.fail e : Attempt ε σ α) Q E := by
  intro s hs
  refine ⟨fun b hb => ?_, fun e he => ?_⟩
  · cases hb
  · cases he
    exact h s hs

theorem Meets.bind {R : β → σ → Prop} (h : Meets I m Q E) (hf : ∀ a, Meets (Q a) (f a) R E) :
    Meets I (m >>= f) R E := by
  intro s hs
  obtain ⟨hok, herr⟩ := h s hs
  cases hm : m s with
  | mk r t =>
      rw [hm] at hok herr
      cases r with
      | ok a =>
          rw [bind_of_ok hm]
          exact hf a t (hok a rfl)
      | error e =>
          rw [bind_of_error hm]
          refine ⟨fun b hb => ?_, fun e' he => ?_⟩
          · cases hb
          · cases he
            exact herr e rfl

theorem Meets.mapError {f : ε → ε} (h : Meets I m Q E) (hE : ∀ e s, E e s → E' (f e) s) :
    Meets I (Attempt.mapError f m) Q E' := by
  intro s hs
  obtain ⟨hok, herr⟩ := h s hs
  unfold Attempt.mapError
  cases hm : m s with
  | mk r t =>
      rw [hm] at hok herr
      cases r with
      | ok a =>
          refine ⟨fun b hb => ?_, fun e' he => ?_⟩
          · cases hb
            exact hok a rfl
          · cases he
      | error e =>
          refine ⟨fun b hb => ?_, fun e' he => ?_⟩
          · cases hb
          · cases he
            exact hE e t (herr e rfl)

theorem Meets.result (h : Meets I m Q E) :
    Meets I (Attempt.result m)
      (fun r s => (∀ a, r = .ok a → Q a s) ∧ ∀ e, r = .error e → E e s) E' := by
  intro s hs
  refine ⟨fun r hr => ?_, fun e he => ?_⟩
  · obtain rfl := Except.ok.inj hr
    exact h s hs
  · cases he

theorem Meets.ofExcept {r : Except ε α} (hok : ∀ a s, r = .ok a → I s → Q a s)
    (herr : ∀ e s, r = .error e → I s → E e s) : Meets I (Attempt.ofExcept r) Q E :=
  fun s hs => ⟨fun a ha => hok a s ha hs, fun e he => herr e s he hs⟩

theorem Meets.get {Q : σ → σ → Prop} (h : ∀ s, I s → Q s s) : Meets I (Attempt.get : Attempt ε σ σ) Q E := by
  intro s hs
  refine ⟨fun b hb => ?_, fun e he => ?_⟩
  · cases hb
    exact h s hs
  · cases he

theorem Meets.modify {f : σ → σ} {Q : Unit → σ → Prop} (h : ∀ s, I s → Q () (f s)) :
    Meets I (Attempt.modify f) Q E := by
  intro s hs
  refine ⟨fun b hb => ?_, fun e he => ?_⟩
  · cases hb
    exact h s hs
  · cases he

end

/-! ## One computation from one state -/

/-- From the state `s` a value comes with `Q`, or an error with `E`. -/
def Ends (m : Attempt ε σ α) (s : σ) (Q : α → σ → Prop) (E : ε → σ → Prop) : Prop :=
  match m s with
  | (.ok a, t) => Q a t
  | (.error e, t) => E e t

section

variable {s : σ} {m : Attempt ε σ α} {Q : α → σ → Prop} {E : ε → σ → Prop}

@[simp] theorem ends_pure {a : α} :
    Ends (Pure.pure a : Attempt ε σ α) s Q E ↔ Q a s := Iff.rfl

@[simp] theorem ends_get {Q : σ → σ → Prop} :
    Ends (Attempt.get : Attempt ε σ σ) s Q E ↔ Q s s := Iff.rfl

@[simp] theorem ends_modify {f : σ → σ} {Q : Unit → σ → Prop} :
    Ends (Attempt.modify f : Attempt ε σ Unit) s Q E ↔ Q () (f s) := Iff.rfl

@[simp] theorem ends_bind {Q : β → σ → Prop} :
    Ends (m >>= f) s Q E ↔ Ends m s (fun a t => Ends (f a) t Q E) E := by
  unfold Ends
  cases hm : m s with
  | mk r t =>
      cases r with
      | ok a => rw [bind_of_ok hm]
      | error e => rw [bind_of_error hm]

@[simp] theorem ends_rescue {h : ε → Attempt ε σ α} :
    Ends (Attempt.rescue m h) s Q E ↔ Ends m s Q fun e t => Ends (h e) t Q E := by
  unfold Ends Attempt.rescue
  cases m s with
  | mk r t => cases r <;> rfl

/-- What holds of every way it ends holds of the state it leaves. -/
theorem Ends.state {P : σ → Prop} : Ends m s (fun _ => P) (fun _ => P) ↔ P (m s).2 := by
  unfold Ends
  cases m s with
  | mk r t => cases r <;> rfl

theorem Ends.mono {Q' : α → σ → Prop} {E' : ε → σ → Prop} (h : Ends m s Q E)
    (hQ : ∀ a t, Q a t → Q' a t) (hE : ∀ e t, E e t → E' e t) : Ends m s Q' E' := by
  unfold Ends at h ⊢
  cases hm : m s with
  | mk r t =>
      rw [hm] at h
      cases r with
      | ok a => exact hQ a t h
      | error e => exact hE e t h

end

/-! ## Two computations -/

/-- Two results, both values or both errors. -/
inductive Alike (V : α → α → Prop) (E : ε → ε → Prop) : Except ε α → Except ε α → Prop
  | ok {a a' : α} : V a a' → Alike V E (.ok a) (.ok a')
  | error {e e' : ε} : E e e' → Alike V E (.error e) (.error e')

/-- Both return values related by `V` or both errors related by `E`, and the states stay
related by `S`. -/
def Agree (S : σ → σ → Prop) (V : α → α → Prop) (E : ε → ε → Prop) (m m' : Attempt ε σ α) : Prop :=
  ∀ s s', S s s' → Alike V E (m s).1 (m' s').1 ∧ S (m s).2 (m' s').2

section

variable {S : σ → σ → Prop} {V : α → α → Prop} {E E' : ε → ε → Prop} {m m' : Attempt ε σ α}

theorem Alike.mono {V' : α → α → Prop} {x x' : Except ε α} (h : Alike V E x x')
    (hV : ∀ a a', V a a' → V' a a') (hE : ∀ e e', E e e' → E' e e') : Alike V' E' x x' := by
  cases h with
  | ok hv => exact .ok (hV _ _ hv)
  | error he => exact .error (hE _ _ he)

theorem Agree.mono {V' : α → α → Prop} (h : Agree S V E m m') (hV : ∀ a a', V a a' → V' a a')
    (hE : ∀ e e', E e e' → E' e e') : Agree S V' E' m m' :=
  fun s s' hs => ⟨(h s s' hs).1.mono hV hE, (h s s' hs).2⟩

theorem Agree.pure {a a' : α} (h : V a a') :
    Agree S V E (Pure.pure a : Attempt ε σ α) (Pure.pure a') :=
  fun _ _ hs => ⟨.ok h, hs⟩

theorem Agree.fail {e e' : ε} (h : E e e') :
    Agree S V E (Attempt.fail e : Attempt ε σ α) (Attempt.fail e') :=
  fun _ _ hs => ⟨.error h, hs⟩

theorem Agree.bind {W : β → β → Prop} {f f' : α → Attempt ε σ β} (h : Agree S V E m m')
    (hf : ∀ a a', V a a' → Agree S W E (f a) (f' a')) : Agree S W E (m >>= f) (m' >>= f') := by
  intro s s' hs
  obtain ⟨hr, ht⟩ := h s s' hs
  cases hm : m s with
  | mk r t =>
      cases hm' : m' s' with
      | mk r' t' =>
          rw [hm, hm'] at hr ht
          cases hr with
          | ok hV =>
              rw [bind_of_ok hm, bind_of_ok hm']
              exact hf _ _ hV t t' ht
          | error hE =>
              rw [bind_of_error hm, bind_of_error hm']
              exact ⟨.error hE, ht⟩

theorem Agree.mapError {f : ε → ε} (h : Agree S V E m m') (hf : ∀ e e', E e e' → E' (f e) (f e')) :
    Agree S V E' (Attempt.mapError f m) (Attempt.mapError f m') := by
  intro s s' hs
  obtain ⟨hr, ht⟩ := h s s' hs
  unfold Attempt.mapError
  cases hm : m s with
  | mk r t =>
      cases hm' : m' s' with
      | mk r' t' =>
          rw [hm, hm'] at hr ht
          cases hr with
          | ok hV => exact ⟨.ok hV, ht⟩
          | error hE => exact ⟨.error (hf _ _ hE), ht⟩

theorem Agree.ofExcept {r r' : Except ε α} (h : Alike V E r r') :
    Agree S V E (Attempt.ofExcept r) (Attempt.ofExcept r') :=
  fun _ _ hs => ⟨h, hs⟩

theorem Agree.get : Agree S S E (Attempt.get : Attempt ε σ σ) Attempt.get :=
  fun _ _ hs => ⟨.ok hs, hs⟩

theorem Agree.modify {f f' : σ → σ} (h : ∀ s s', S s s' → S (f s) (f' s')) :
    Agree S (fun _ _ => True) E (Attempt.modify f) (Attempt.modify f') :=
  fun s s' hs => ⟨.ok trivial, h s s' hs⟩

theorem Agree.result (h : Agree S V E m m') :
    Agree S (Alike V E) E' (Attempt.result m) (Attempt.result m') := by
  intro s s' hs
  obtain ⟨hr, ht⟩ := h s s' hs
  exact ⟨.ok hr, ht⟩

end

end Attempt
