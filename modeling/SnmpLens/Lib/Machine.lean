import Mathlib.Logic.Relation

/-!
# Labelled machines and their runs

A machine is a partial step function: `step s a` is `none` where the label `a`
is not enabled in `s`. Whatever is nondeterministic about the system — which
thread moves, whether a write succeeds, what the environment answers — is in the
label, so a run is determined by its list of labels and a concrete run is
something to evaluate rather than to argue about.

`Run step ok` carries a side condition on every step taken, stated on the state
*before* the step. That is what conditional results are phrased with: a property
of every run is a `Run` whose condition is trivial, and a property of the runs
that avoid some hazard is a `Run` whose condition excludes it.
-/

namespace Machine

variable {σ α : Type*} {step : σ → α → Option σ} {ok : σ → α → Prop}

/-- Runs of `step` from the first state to the second, every step meeting `ok`. -/
inductive Run (step : σ → α → Option σ) (ok : σ → α → Prop) : σ → List α → σ → Prop
  | refl (s : σ) : Run step ok s [] s
  | head {s t u : σ} {a : α} {as : List α} :
      ok s a → step s a = some t → Run step ok t as u → Run step ok s (a :: as) u

/-- Run a list of labels in order. -/
def exec (step : σ → α → Option σ) : σ → List α → Option σ
  | s, [] => some s
  | s, a :: as => (step s a).bind fun t => exec step t as

variable {as : List α} {s t : σ}

namespace Run

/-- **The invariant rule.** What holds at the start and is kept by every step holds at the end. -/
theorem invariant {I : σ → Prop} (h : Run step ok s as t) (h0 : I s)
    (hstep : ∀ t a u, I t → ok t a → step t a = some u → I u) : I t := by
  induction h with
  | refl => exact h0
  | head hok hs _ ih => exact ih (hstep _ _ _ h0 hok hs)

/-- Forgetting part of the side condition. -/
theorem mono {ok' : σ → α → Prop} (h : Run step ok s as t) (himp : ∀ t a, ok t a → ok' t a) :
    Run step ok' s as t := by
  induction h with
  | refl => exact .refl _
  | head hok hs _ ih => exact .head (himp _ _ hok) hs ih

theorem of_labels {ok' : σ → α → Prop} (h : Run step ok s as t) (hall : ∀ a ∈ as, ∀ s, ok' s a) :
    Run step ok' s as t := by
  induction h with
  | refl => exact .refl _
  | head _ hs _ ih =>
      exact .head (hall _ List.mem_cons_self _) hs
        (ih fun a ha => hall a (List.mem_cons_of_mem _ ha))

theorem single {a : α} (hok : ok s a) (hs : step s a = some t) :
    Run step ok s [a] t := .head hok hs (.refl _)

theorem trans {s t u : σ} {as bs : List α} (h : Run step ok s as t) (h' : Run step ok t bs u) :
    Run step ok s (as ++ bs) u := by
  induction h with
  | refl => exact h'
  | head hok hs _ ih => exact .head hok hs (ih h')

/-- A run over a concatenation passes through a state between the two parts. -/
theorem split {s u : σ} {as bs : List α} (h : Run step ok s (as ++ bs) u) :
    ∃ t, Run step ok s as t ∧ Run step ok t bs u := by
  induction as generalizing s with
  | nil => exact ⟨s, .refl s, h⟩
  | cons a as ih =>
      cases h with
      | head hok hs hrest =>
          obtain ⟨t, h1, h2⟩ := ih hrest
          exact ⟨t, .head hok hs h1, h2⟩

end Run

/-- The machine restricted to the steps a check admits. -/
def checked (step : σ → α → Option σ) (check : σ → α → Bool) (s : σ) (a : α) : Option σ :=
  if check s a then step s a else none

/-- A list of labels evaluated under a check is a run under what the check decides. -/
theorem run_of_checked {check : σ → α → Bool} (hcheck : ∀ s a, check s a = true → ok s a)
    (h : exec (checked step check) s as = some t) :
    Run step ok s as t := by
  induction as generalizing s with
  | nil =>
      obtain rfl : s = t := by simpa [exec] using h
      exact .refl s
  | cons a as ih =>
      obtain ⟨u, hu, hrest⟩ := Option.bind_eq_some_iff.mp h
      unfold checked at hu
      split at hu
      · rename_i hc
        exact .head (hcheck s a hc) hu (ih hrest)
      · cases hu

theorem run_of_exec (h : exec step s as = some t) :
    Run step (fun _ _ => True) s as t := by
  have hstep : checked step (fun _ _ => true) = step := rfl
  exact run_of_checked (fun _ _ _ => trivial) (hstep.symm ▸ h)

theorem exec_of_run (h : Run step ok s as t) :
    exec step s as = some t := by
  induction h with
  | refl => rfl
  | head _ hs _ ih => exact Option.bind_eq_some_iff.mpr ⟨_, hs, ih⟩

end Machine
