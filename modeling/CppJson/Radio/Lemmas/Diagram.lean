import CppJson.Radio.Lemmas.Run

/-!
# The machine and the drawn diagram

Every run of the machine follows the diagram with trial operation (`Steps.trialOf`).
-/

namespace CppJson

/-- What the diagram says about a state of the machine. -/
def trialOf (s : StateRef) : Trial := ⟨box s, s = .dtsNormalN1⟩

theorem event_cases (e : HsmEvent) :
    e = dteError ∨ e = dteMaintain ∨ e = dteJoin ∨ e = dteJoinN1 ∨ e = dteJoinN2 ∨ e = hsmeExit ∨
      (e ≠ dteError ∧ e ≠ dteMaintain ∧ e ≠ dteJoin ∧ e ≠ dteJoinN1 ∧ e ≠ dteJoinN2 ∧
        e ≠ hsmeExit) := by
  tauto

/-- The machine follows the diagram with trial operation. -/
theorem trialOf_next {s : StateRef} (hs : s ≠ .hsmRoot) (e : HsmEvent) :
    trialOf ((next s e).getD s) = (trialOf s).step e := by
  rcases event_cases e with rfl | rfl | rfl | rfl | rfl | rfl | ⟨h₁, h₂, h₃, h₄, h₅, h₆⟩
  case inr.inr.inr.inr.inr.inr =>
    cases s with
    | hsmRoot => exact absurd rfl hs
    | dtsNormal =>
        simp [next_dtsNormal, trialOf, Trial.step, Trial.refuses, box, Box.step, h₁, h₂, h₄, h₅]
    | dtsNormalN1 =>
        simp [next_dtsNormalN1, trialOf, Trial.step, Trial.refuses, box, Box.step, h₁, h₂, h₄, h₅, h₆]
    | dtsNormalN2 =>
        simp [next_dtsNormalN2, trialOf, Trial.step, Trial.refuses, box, Box.step, h₁, h₂, h₄, h₅]
    | dtsDamage => simp [next_dtsDamage, trialOf, Trial.step, Trial.refuses, box, Box.step, h₂, h₃]
    | dtsMaintenance =>
        simp [next_dtsMaintenance, trialOf, Trial.step, Trial.refuses, box, Box.step, h₁, h₃]
  all_goals
    cases s with
    | hsmRoot => exact absurd rfl hs
    | _ => decide

theorem Ran.trialOf {e : HsmEvent} {w w' : RadioWorld} (h : Ran e w w') (hidle : Idle w) :
    CppJson.trialOf w'.curState = (CppJson.trialOf w.curState).step e := by
  rw [← trialOf_next hidle.curState, h.curState]

theorem Steps.trialOf {mem : Memory} {es : List HsmEvent} {w : RadioWorld}
    (h : Steps (initWorld mem) es w) :
    CppJson.trialOf w.curState = es.foldl Trial.step Trial.start := by
  induction h with
  | nil => rfl
  | snoc hsteps hran ih =>
      rw [hran.trialOf (hsteps.idle (idle_initWorld mem)), ih, List.foldl_append]
      rfl

/-- What is refused does not move the box, and everything else moves it along the arrows. -/
theorem Trial.foldl_heeded (s : Trial) (es : List HsmEvent) :
    (s.heeded es).foldl Box.step s.box = (es.foldl Trial.step s).box := by
  induction es generalizing s with
  | nil => rfl
  | cons e es ih =>
      rw [List.foldl_cons, ← ih, heeded]
      by_cases h : s.refuses e
      · simp only [h, ↓reduceIte, step]
      · simp only [h, Bool.false_eq_true, ↓reduceIte, List.foldl_cons, step]

end CppJson
