import Mathlib.Data.List.Basic

/-!
# Machines that answer

A step takes a state and an input to another state, and answers or keeps quiet. A run
over a list of inputs ends in a state, with the answers that were given on the way.
-/

namespace Mealy

variable {σ ι ω : Type*}

/-- The state behind some inputs, and what was answered. -/
def run (step : σ → ι → σ × Option ω) : σ → List ι → σ × List ω
  | s, [] => (s, [])
  | s, i :: is =>
      ((run step (step s i).1 is).1, (step s i).2.toList ++ (run step (step s i).1 is).2)

variable {step : σ → ι → σ × Option ω} {s : σ} {is : List ι}

theorem run_append (front back : List ι) :
    run step s (front ++ back) = ((run step (run step s front).1 back).1,
      (run step s front).2 ++ (run step (run step s front).1 back).2) := by
  induction front generalizing s with
  | nil => rfl
  | cons i front ih => simp [run, ih]

/-- **The invariant rule.** -/
theorem invariant {I : σ → Prop} (hstep : ∀ s i, I s → I (step s i).1) (h : I s) :
    I (run step s is).1 := by
  induction is generalizing s with
  | nil => exact h
  | cons i is ih => exact ih (hstep s i h)

theorem run_filter {counts : ι → Bool} (hidle : ∀ s i, counts i = false → step s i = (s, none)) :
    run step s (is.filter counts) = run step s is := by
  induction is generalizing s with
  | nil => rfl
  | cons i is ih =>
      cases hi : counts i with
      | true =>
          rw [List.filter_cons_of_pos hi, run, run, ih]
      | false =>
          rw [List.filter_cons_of_neg (by rw [hi]; exact Bool.false_ne_true), ih, run, hidle s i hi]
          rfl

/-! ## Answers that alternate -/

/-- A state is in one of two phases, and every answer is that of the phase and ends it. -/
structure Toggles (step : σ → ι → σ × Option ω) (phase : σ → Bool) (sign : ω → Bool) : Prop where
  quiet : ∀ s i, (step s i).2 = none → phase (step s i).1 = phase s
  answer : ∀ s i o, (step s i).2 = some o → sign o = phase s ∧ phase (step s i).1 = !phase s

variable {phase : σ → Bool} {sign : ω → Bool}

theorem parity_succ (n : Nat) : decide ((n + 1) % 2 = 1) = !decide (n % 2 = 1) := by
  rcases Nat.mod_two_eq_zero_or_one n with h | h
  · rw [decide_eq_true (by omega : (n + 1) % 2 = 1), decide_eq_false (by omega : ¬ n % 2 = 1)]
    rfl
  · rw [decide_eq_false (by omega : ¬ (n + 1) % 2 = 1), decide_eq_true h]
    rfl

/-- **The answers of a run alternate**, and their number tells the phase it ends in. -/
theorem Toggles.alternate (h : Toggles step phase sign) :
    (∀ k o, (run step s is).2[k]? = some o → sign o = (phase s ^^ decide (k % 2 = 1))) ∧
      phase (run step s is).1 = (phase s ^^ decide ((run step s is).2.length % 2 = 1)) := by
  induction is generalizing s with
  | nil => exact ⟨fun k o ho => by simp [run] at ho, by simp [run]⟩
  | cons i is ih =>
      obtain ⟨hsigns, hphase⟩ := @ih (step s i).1
      unfold run
      cases ho : (step s i).2 with
      | none =>
          rw [h.quiet s i ho] at hsigns hphase
          exact ⟨hsigns, hphase⟩
      | some first =>
          obtain ⟨hsign, hnext⟩ := h.answer s i first ho
          rw [hnext] at hsigns hphase
          constructor
          · intro k o hk
            cases k with
            | zero =>
                obtain rfl := Option.some.inj hk
                rw [hsign]
                exact (Bool.xor_false _).symm
            | succ k =>
                rw [hsigns k o hk, parity_succ]
                cases phase s <;> cases decide (k % 2 = 1) <;> rfl
          · show _ = (phase s ^^ decide (((run step (step s i).1 is).2.length + 1) % 2 = 1))
            rw [hphase, parity_succ]
            cases phase s <;> cases decide ((run step (step s i).1 is).2.length % 2 = 1) <;> rfl

end Mealy
