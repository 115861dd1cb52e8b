import CppJson.Hsm.Lemmas.Configuration
import CppJson.Radio.Lemmas.Run

/-!
# Any machine on the engine

What the engine promises to every set of states and handlers. The radio's machine is one of them.
-/

namespace CppJson

/-! ## The radio's machine -/

/-- The calls of `HSM_STATE_Create` in `DT_Init`. -/
def dtInitCalls : List (StateArgs StateRef Handler) :=
  [⟨.dtsNormal, jsonJoin, .dtStateNormalHndlr, none⟩,
    ⟨.dtsNormalN1, jsonJoinN1, .dtStateNormalN1Hndlr, some .dtsNormal⟩,
    ⟨.dtsNormalN2, jsonJoinN2, .dtStateNormalN2Hndlr, some .dtsNormal⟩,
    ⟨.dtsDamage, jsonDamage, .dtStateDamageHndlr, none⟩,
    ⟨.dtsMaintenance, jsonMaintain, .dtStateMaintainanceHndlr, none⟩]

theorem hsmStatesCreate_dtInitCalls :
    hsmStatesCreate .hsmRoot (fun _ => hsmRootObject) dtInitCalls = some objects := by
  rw [← createStates_eq]
  simp [hsmStatesCreate, dtInitCalls, createStates]

theorem inOrder_dtInitCalls : InOrder StateRef.hsmRoot [] dtInitCalls := by
  simp [InOrder, dtInitCalls]

theorem hsmRootObject_zero (s : StateRef) :
    ((fun _ => hsmRootObject : StateRef → _) s).parent = none ∧
      ((fun _ => hsmRootObject : StateRef → _) s).level = 0 :=
  ⟨rfl, rfl⟩

theorem built_objects :
    Built objects .hsmRoot [.dtsMaintenance, .dtsDamage, .dtsNormalN2, .dtsNormalN1, .dtsNormal] :=
  ((Built.zero hsmRootObject_zero).creates inOrder_dtInitCalls hsmStatesCreate_dtInitCalls).1

theorem hierarchy_dt : Hierarchy dt.state .hsmRoot := built_objects.hierarchy

theorem under_dt (s : StateRef) : Under dt.state .hsmRoot s :=
  built_objects.under_of_mem (by cases s <;> simp)

theorem appCode_modifyMem (tran : RadioTran) (f : Memory → Memory) :
    AppCode dt.state .hsmRoot tran (modifyMem f) :=
  .modify f

theorem appCode_saveToFile (tran : RadioTran) (str : List UInt8) :
    AppCode dt.state .hsmRoot tran (saveToFile str) :=
  .bind .get fun _ => .bind (appCode_modifyMem tran _) fun _ => .pure _

theorem appCode_display (tran : RadioTran) (v : CStr) : AppCode dt.state .hsmRoot tran (display v) := by
  refine .bind (appCode_modifyMem tran _) fun _ => .bind (appCode_modifyMem tran _) fun _ =>
    .bind .get fun w => ?_
  cases cjsonPrint w.mem.root with
  | error why => exact .stop _
  | ok res => exact .bind (appCode_saveToFile tran _) fun _ => .pure _

theorem appCode_state2 (tran : RadioTran) (t : StateRef) (v : CStr) :
    AppCode dt.state .hsmRoot tran (state2 objects tran t v) := by
  refine .bind (.bind .get fun w => appCode_modifyMem tran _) fun _ => .tran (under_dt t) ?_
  rintro hook ⟨⟩
  exact appCode_display tran v

theorem tame_dt : dt.Tame .hsmRoot where
  code s tran e := by
    rw [call_eq]
    cases reaction s e with
    | pass code => exact .pure code
    | tran t => exact .bind (appCode_state2 tran t _) fun _ => .pure _
  root _ _ := rfl

theorem session_dt (mem : Memory) (es : List HsmEvent) :
    (dt.session Machine.tranFuel .dtsNormal es).run ⟨.dtsNormal, false, mem, []⟩ = session mem es := by
  have hcreate : dt.hsmCreate .dtsNormal mem = .ok () (initWorld mem) := by
    simpa [dtInit, createStates_eq] using dtInit_eq mem
  rw [Machine.run_session, hcreate, session_eq]
  rfl

/-- The radio goes to DTS_DAMAGE, back to DTS_NORMAL, and into the sub-state DTS_NORMAL_N1. -/
theorem session_damage_join_n1 :
    ∃ w, (dt.session 2 .dtsNormal [dteError, dteJoin, dteJoinN1]).run
        ⟨.dtsNormal, false, loadMemory (some (ascii "\x7b\x7d")) [], []⟩ = .ok () w ∧
      w.curState = .dtsNormalN1 := by
  have hroot : (loadMemory (some (ascii "\x7b\x7d")) []).root = some emptyObject :=
    cjsonParse_emptyObject
  obtain ⟨w, hw⟩ := session_returns hroot (.mk (by simp) (by simp))
    (bufferSuffices_emptyObject [] [dteError, dteJoin, dteJoinN1])
  refine ⟨w, (session_dt _ _).trans hw, ?_⟩
  rw [(session_eq_ok.mp hw).curState]
  decide

/-! ## States -/

section States

variable {Ref Fn σ ε : Type} [DecidableEq Ref] {m : Machine Ref Fn σ ε} {hsmRoot : Ref}

/-- States that are created parents first form a tree in which `HSM_Tran` finds the way between any
two of them: its loops end, meet no NULL and stay inside the lists, which lead to the nearest common
ancestor. -/
theorem created_states_form_tree {objects : Ref → HsmState Ref Fn} {calls : List (StateArgs Ref Fn)}
    (hzero : ∀ s, (objects s).parent = none ∧ (objects s).level = 0) (horder : InOrder hsmRoot [] calls)
    (hrun : hsmStatesCreate hsmRoot objects calls = some m.state) :
    (∀ c ∈ calls, (m.state c.this).parent = some (c.parent.getD hsmRoot) ∧
      (m.state c.this).handler = c.handler ∧ Under m.state hsmRoot c.this) ∧
    ∀ src dst, Under m.state hsmRoot src → Under m.state hsmRoot dst →
      ∃ listExit listEntry c, m.tranLists src dst = (.ok (listExit, listEntry) : Except (Fault ε) _) ∧
        Climb (parentOf m.state) src listExit c ∧ Climb (parentOf m.state) dst listEntry c ∧
        Nearest (parentOf m.state) src dst c := by
  obtain ⟨hbuilt, -, hnew⟩ := (Built.zero hzero).creates horder hrun
  constructor
  · intro c hc
    have hunder : Under m.state hsmRoot c.this := hbuilt.under _ (by simpa using ⟨c, hc, rfl⟩)
    exact ⟨(hnew c hc).1, (hnew c hc).2, hunder⟩
  · exact fun src dst hs hd => Machine.tranLists_spec hbuilt.hierarchy hs hd

theorem created_states_form_tree_dt : Under objects .hsmRoot .dtsNormalN2 :=
  ((created_states_form_tree (m := dt) hsmRootObject_zero inOrder_dtInitCalls
    hsmStatesCreate_dtInitCalls).1 ⟨.dtsNormalN2, jsonJoinN2, .dtStateNormalN2Hndlr,
    some .dtsNormal⟩ (by simp [dtInitCalls])).2.2

end States

/-! ## Runs -/

section Runs

variable {Ref Fn σ ε : Type} [DecidableEq Ref] {m : Machine Ref Fn σ ε} {hsmRoot initState p : Ref}
  {init : List Ref} {mem : σ}

/-- At every prompt the open states are the current state and those above it, whatever the handlers
do: ENTRY opens a state and EXIT closes it, and the states above the initial one are open from the
start, since `HSM_Create` enters the initial state only. The engine itself never fails: a run stops
only when the application ends it or `HSM_Tran` calls itself deeper than `n`. -/
theorem open_states_are_current (hh : Hierarchy m.state hsmRoot) (hm : m.Tame hsmRoot)
    (hp : (m.state initState).parent = some p) (hinit : Climb (parentOf m.state) p init hsmRoot) (n : ℕ)
    (events : List HsmEvent) :
    ((m.session n initState events).run ⟨initState, false, mem, []⟩).Post
      (fun _ w => w.hsmTran = false ∧ ∃ opened, follow m.state hsmRoot init w.trace = some opened ∧
        Climb (parentOf m.state) w.curState opened hsmRoot)
      (fun f w => ((∃ reason, f = .app reason) ∨ f = .tooDeep) ∧
        ∃ opened, follow m.state hsmRoot init w.trace = some opened) :=
  (Machine.session_post hh hm hp hinit n mem events).mono (fun _ _ ⟨_, h⟩ => ⟨h.hsmTran, h.opened⟩)
    fun _ _ ⟨_, h⟩ => ⟨h.reason, h.opened⟩

theorem open_states_are_current_dt :
    ((dt.session 2 .dtsNormal [dteError, dteJoin, dteJoinN1]).run
        ⟨.dtsNormal, false, loadMemory (some (ascii "\x7b\x7d")) [], []⟩).Post
      (fun _ w => w.hsmTran = false ∧ ∃ opened, follow objects .hsmRoot [] w.trace = some opened ∧
        Climb (parentOf objects) w.curState opened .hsmRoot)
      (fun f w => ((∃ reason, f = .app reason) ∨ f = .tooDeep) ∧
        ∃ opened, follow objects .hsmRoot [] w.trace = some opened) :=
  open_states_are_current hierarchy_dt tame_dt rfl .nil 2 [dteError, dteJoin, dteJoinN1]

/-- `HSM_IsInState` tells the states that are open from those that are not. -/
theorem isInState_iff_open (hh : Hierarchy m.state hsmRoot) (hm : m.Tame hsmRoot)
    (hp : (m.state initState).parent = some p) (hinit : Climb (parentOf m.state) p init hsmRoot) {n : ℕ}
    {events : List HsmEvent} {w : World Ref σ}
    (hrun : (m.session n initState events).run ⟨initState, false, mem, []⟩ = .ok () w) :
    ∃ opened, follow m.state hsmRoot init w.trace = some opened ∧
      ∀ s, m.hsmIsInState w s = some (decide (s = hsmRoot ∨ s ∈ opened)) := by
  have hpost := Machine.session_post hh hm hp hinit n mem events
  rw [hrun] at hpost
  obtain ⟨_, hsettled⟩ := hpost
  obtain ⟨opened, hopened, hclimb⟩ := hsettled.opened
  exact ⟨opened, hopened, fun s => Machine.hsmIsInState_eq hh hclimb s⟩

theorem isInState_iff_open_dt :
    ∃ w : RadioWorld, w.curState = .dtsNormalN1 ∧
      ∃ opened, follow objects .hsmRoot [] w.trace = some opened ∧
      ∀ s, dt.hsmIsInState w s = some (decide (s = .hsmRoot ∨ s ∈ opened)) := by
  obtain ⟨w, hrun, hcur⟩ := session_damage_join_n1
  exact ⟨w, hcur, isInState_iff_open hierarchy_dt tame_dt rfl .nil hrun⟩

/-- `HSM_Run` offers its event to the state that was current when it was called, and what a handler
returns to the state above, whatever state the handlers change to on the way, up to the handler that
returns NULL or never returns: the root at the latest. No other handler gets an event of
`HSM_Run`. -/
theorem event_offered_upwards (hh : Hierarchy m.state hsmRoot) (hm : m.Tame hsmRoot)
    (hp : (m.state initState).parent = some p) (hinit : Climb (parentOf m.state) p init hsmRoot) {n : ℕ}
    {events : List HsmEvent} {w : World Ref σ}
    (hrun : (m.session n initState events).run ⟨initState, false, mem, []⟩ = .ok () w) (e : HsmEvent) :
    ∃ above offers, Climb (parentOf m.state) w.curState above hsmRoot ∧
      m.Offered (m.hsmTran n) (above ++ [hsmRoot]) e w offers ((m.runWith n e).run w) ∧
      handlerCalls ((m.runWith n e).run w).state.trace = handlerCalls w.trace ++ offers := by
  have hpost := Machine.session_post hh hm hp hinit n mem events
  rw [hrun] at hpost
  obtain ⟨calls, hsettled⟩ := hpost
  obtain ⟨above, -, hclimb⟩ := hsettled.opened
  obtain rfl := hsettled.calls
  obtain ⟨offers, hoffers, hend⟩ := Machine.runWith_post (n := n) (e := e) hh hm hclimb hsettled
  refine ⟨above, offers, hclimb, hoffers, ?_⟩
  exact (hend.mono (fun _ _ h => h.calls) fun _ _ h => h.calls).state

theorem event_offered_upwards_dt :
    ∃ w : RadioWorld, w.curState = .dtsNormalN1 ∧
      ∃ above offers, Climb (parentOf objects) w.curState above .hsmRoot ∧
        dt.Offered (dt.hsmTran 2) (above ++ [.hsmRoot]) dteMaintain w offers
          ((dt.runWith 2 dteMaintain).run w) ∧
        handlerCalls ((dt.runWith 2 dteMaintain).run w).state.trace =
          handlerCalls w.trace ++ offers := by
  obtain ⟨w, hrun, hcur⟩ := session_damage_join_n1
  exact ⟨w, hcur, event_offered_upwards hierarchy_dt tame_dt rfl .nil hrun dteMaintain⟩

end Runs

end CppJson
