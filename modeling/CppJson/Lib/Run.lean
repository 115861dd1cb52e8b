import Mathlib.Data.List.Basic

/-!
# Runs of a partial step function

`step a s` is `none` where the action `a` is not possible in `s`.
-/

namespace CppJson

variable {Act St : Type}

/-- The actions one after the other. -/
def run (step : Act → St → Option St) : List Act → St → Option St
  | [], s => some s
  | a :: acts, s => (step a s).bind (run step acts)

variable {step : Act → St → Option St} {acts : List Act} {a : Act} {s s' s'' : St}

@[simp] theorem run_nil : run step [] s = some s := rfl

theorem run_cons_eq_some :
    run step (a :: acts) s = some s'' ↔ ∃ s', step a s = some s' ∧ run step acts s' = some s'' := by
  rw [run, Option.bind_eq_some_iff]

/-- What every step of a run keeps holds at its end. -/
theorem run_invariant {I : St → Prop} (hstep : ∀ a ∈ acts, ∀ s s', I s → step a s = some s' → I s')
    (h : I s) (hrun : run step acts s = some s') : I s' := by
  induction acts generalizing s with
  | nil =>
      cases hrun
      exact h
  | cons a acts ih =>
      obtain ⟨s₁, h₁, hrun⟩ := run_cons_eq_some.mp hrun
      exact ih (fun b hb => hstep b (List.mem_cons_of_mem a hb))
        (hstep a List.mem_cons_self s s₁ h h₁) hrun

/-- A run whose steps all make `f` smaller is no longer than what `f` was at its beginning. -/
theorem run_length_le {I : St → Prop} {f : St → ℕ}
    (hstep : ∀ a ∈ acts, ∀ s s', I s → step a s = some s' → I s' ∧ f s' < f s) (h : I s)
    (hrun : run step acts s = some s') : acts.length + f s' ≤ f s := by
  induction acts generalizing s with
  | nil =>
      cases hrun
      simp
  | cons a acts ih =>
      obtain ⟨s₁, h₁, hrun⟩ := run_cons_eq_some.mp hrun
      have hone := hstep a List.mem_cons_self s s₁ h h₁
      have hrest := ih (fun b hb => hstep b (List.mem_cons_of_mem a hb)) hone.1 hrun
      rw [List.length_cons]
      exact Nat.le_trans (by omega) hone.2

end CppJson
