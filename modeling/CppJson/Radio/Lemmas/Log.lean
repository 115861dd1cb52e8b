import CppJson.Radio.Lemmas.Run

/-!
# What a run writes to the log

A call writes the line of its transition, and a second line when the transition leaves
DTS_NORMAL_N1.
-/

namespace CppJson

/-- A transition leaves its line in the log, and one out of DTS_NORMAL_N1 leaves another one. -/
theorem tranLog_of_next {s t : StateRef} {e : HsmEvent} (h : next s e = some t) :
    tranLog s t = tranLine (s, t) :: if LeavesN1 s e then [tranLine (s, .dtsNormal)] else [] := by
  cases s with
  | hsmRoot =>
      by_cases h0 : e = hsmeNull <;>
        simp [next, chain, dispatch, h0, reaction, objects, hsmRootObject, react] at h
  | dtsNormal =>
      rw [next_dtsNormal] at h
      split_ifs at h <;> cases h <;> rfl
  | dtsNormalN1 =>
      rw [next_dtsNormalN1] at h
      split_ifs at h <;> cases h <;> subst e <;> rfl
  | dtsNormalN2 =>
      rw [next_dtsNormalN2] at h
      split_ifs at h <;> cases h <;> rfl
  | dtsDamage =>
      rw [next_dtsDamage] at h
      split_ifs at h <;> cases h <;> rfl
  | dtsMaintenance =>
      rw [next_dtsMaintenance] at h
      split_ifs at h <;> cases h <;> rfl

theorem next_of_leavesN1 {s : StateRef} {e : HsmEvent} (h : LeavesN1 s e) : ∃ t, next s e = some t := by
  obtain ⟨rfl, rfl | rfl⟩ := h
  · exact ⟨_, rfl⟩
  · exact ⟨_, rfl⟩

theorem Ran.log {e : HsmEvent} {w w' : RadioWorld} (h : Ran e w w') :
    ∃ new, transitions w'.trace = transitions w.trace ++ new ∧
      w'.mem.log = w.mem.log ++ new.map tranLine ++
        if LeavesN1 w.curState e then [tranLine (w.curState, .dtsNormal)] else [] := by
  refine ⟨_, h.completed, ?_⟩
  cases h with
  | ignored hnext =>
      have hstays : ¬LeavesN1 w.curState e := by
        intro hleaves
        obtain ⟨t, ht⟩ := next_of_leavesN1 hleaves
        simp [hnext] at ht
      simp [World.note, hnext, hstays]
  | moved hnext => simp [World.moved, hnext, tranLog_of_next hnext]

theorem Died.log {e : HsmEvent} {w w' : RadioWorld} {f : Fault RadioFault} (h : Died e w f w') :
    transitions w'.trace = transitions w.trace ∧ w.mem.log.length < w'.mem.log.length := by
  obtain ⟨t, why, -, -, -, rfl⟩ := h
  simp [World.halted, transitions_append, transitions_dispatch, transitions_busy, tranLog]

theorem Ran.logsOnce {e : HsmEvent} {w w' : RadioWorld} (h : Ran e w w') :
    LogsOnce w e ↔ ¬LeavesN1 w.curState e := by
  refine ⟨And.left, fun hstays => ⟨hstays, fun t ht => ?_⟩⟩
  cases h with
  | ignored hnext => simp [hnext] at ht
  | moved hnext hprint =>
      obtain rfl : _ = t := by simpa [hnext] using ht
      exact ⟨_, hprint⟩

theorem Died.not_logsOnce {e : HsmEvent} {w w' : RadioWorld} {f : Fault RadioFault}
    (h : Died e w f w') :
    ¬LogsOnce w e := by
  rintro ⟨-, hprints⟩
  obtain ⟨t, why, hnext, hprint, -, -⟩ := h
  obtain ⟨res, hres⟩ := hprints t hnext
  simp [hprint] at hres

/-! ## Whole runs -/

/-- The log never has fewer lines than there were transitions, and it tells them when every call
wrote its line once. -/
theorem Steps.log {mem : Memory} {es : List HsmEvent} {w : RadioWorld} (h : Steps (initWorld mem) es w)
    (hlog : mem.log = []) :
    (transitions w.trace).length ≤ w.mem.log.length ∧
    (w.mem.log = (transitions w.trace).map tranLine ↔
      ∀ pre e post, es = pre ++ e :: post → ∀ w₁, session mem pre = .ok () w₁ → LogsOnce w₁ e) := by
  induction h with
  | nil => simp [initWorld, transitions, hlog]
  | @snoc es e w₁ w₂ hsteps hran ih =>
      obtain ⟨hlen, hiff⟩ := ih
      obtain ⟨new, htrans, hlines⟩ := hran.log
      have hpoint : (∀ w, session mem es = .ok () w → LogsOnce w e) ↔ ¬LeavesN1 w₁.curState e := by
        simp [session_eq_ok.mpr hsteps, hran.logsOnce]
      rw [Prog.forall_point_snoc, hpoint, ← hiff, htrans, hlines]
      by_cases hleaves : LeavesN1 w₁.curState e
      · -- the second line makes the log too long
        rw [if_pos hleaves]
        refine ⟨by simp; omega, fun heq => ?_, fun h => absurd hleaves h.2⟩
        have hlen' := congrArg List.length heq
        simp only [List.length_append, List.length_map, List.length_cons, List.length_nil] at hlen'
        omega
      · rw [if_neg hleaves, List.append_nil, List.map_append]
        refine ⟨by simp; omega, fun heq => ⟨List.append_cancel_right heq, hleaves⟩, fun h => by
          rw [h.1]⟩

end CppJson
