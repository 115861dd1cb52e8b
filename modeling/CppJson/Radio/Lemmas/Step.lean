import CppJson.Radio.Abstract

/-!
# One call of `DT_Run`

`dtRun` on an idle machine is given by the table `next`: an event without a next state only leaves
handler calls in the trace, and every other event is one transition (`dtRun_eq`). While a transition
is under way a handler can do no more than write a log line and have its own transition rejected.
-/

namespace CppJson

/-- The world with more lines in the log and more observations. -/
def World.note (w : RadioWorld) (log : List (CStr × CStr)) (trace : List (Obs StateRef)) : RadioWorld :=
  { w with mem := { w.mem with log := w.mem.log ++ log }, trace := w.trace ++ trace }

theorem World.note_nil (w : RadioWorld) : w.note [] [] = w := by
  simp [World.note]

theorem World.note_note (w : RadioWorld) (l l' : List (CStr × CStr)) (t t' : List (Obs StateRef)) :
    (w.note l t).note l' t' = w.note (l ++ l') (t ++ t') := by
  simp [World.note, List.append_assoc]

@[simp] theorem World.curState_note (w : RadioWorld) (l t) : (w.note l t).curState = w.curState := rfl
@[simp] theorem World.hsmTran_note (w : RadioWorld) (l t) : (w.note l t).hsmTran = w.hsmTran := rfl
@[simp] theorem World.root_note (w : RadioWorld) (l t) : (w.note l t).mem.root = w.mem.root := rfl

theorem observe_eq (o : Obs StateRef) (w : RadioWorld) :
    (observe o : RadioProg Unit).run w = .ok () (w.note [] [o]) := by
  simp [observe, World.note]

/-! ## Handlers -/

/-- Every handler follows its reaction. -/
theorem callHandler_eq (tran : RadioTran) (f : Handler) (e : HsmEvent) :
    callHandler objects tran f e =
      match react f e with
      | .pass code => pure code
      | .tran t => do
          state2 objects tran t (stateName t)
          return exitSuccess := by
  cases f with
  | hsmRootHandler => rfl
  | dtStateNormalHndlr =>
      simp only [callHandler, dtStateNormalHndlr, react]
      split_ifs <;> rfl
  | dtStateNormalN1Hndlr =>
      simp only [callHandler, dtStateNormalN1Hndlr, react]
      split_ifs <;> rfl
  | dtStateNormalN2Hndlr =>
      simp only [callHandler, dtStateNormalN2Hndlr, react]
      split_ifs <;> rfl
  | dtStateDamageHndlr =>
      simp only [callHandler, dtStateDamageHndlr, react]
      split_ifs <;> rfl
  | dtStateMaintainanceHndlr =>
      simp only [callHandler, dtStateMaintainanceHndlr, react]
      split_ifs <;> rfl

theorem call_eq (tran : RadioTran) (s : StateRef) (e : HsmEvent) :
    dt.call (dt.state s).handler tran e =
      match reaction s e with
      | .pass code => pure code
      | .tran t => do
          state2 objects tran t (stateName t)
          return exitSuccess :=
  callHandler_eq tran (objects s).handler e

theorem state2_eq (tran : RadioTran) (t : StateRef) (v : CStr) (w : RadioWorld) :
    (state2 objects tran t v).run w =
      (tran t (some (display v))).run (w.note [(stateName w.curState, stateName t)] []) := by
  simp [state2, log2file, modifyMem, World.note, stateName, Prog.run_bind]

theorem reaction_init (s : StateRef) :
    reaction s hsmeInit = .pass (if s = .hsmRoot then hsmeNull else hsmeInit) := by
  cases s <;> decide

/-! ## During a transition -/

/-- The lines a notified handler logs while a transition out of `cur` is under way. -/
def busyLog (cur : StateRef) (e : HsmEvent) (s : StateRef) : List (CStr × CStr) :=
  match reaction s e with
  | .pass _ => []
  | .tran t => [(stateName cur, stateName t)]

def busyTrace (cur : StateRef) (e : HsmEvent) (s : StateRef) : List (Obs StateRef) :=
  .notified s e ::
    match reaction s e with
    | .pass _ => []
    | .tran t => [.rejected cur t]

theorem hsmTran_busy (n : ℕ) (t : StateRef) (hook : Option (RadioProg Unit)) {w : RadioWorld}
    (h : w.hsmTran = true) :
    (dt.hsmTran (n + 1) t hook).run w = .ok () (w.note [] [.rejected w.curState t]) := by
  simp [Machine.hsmTran, h, observe_eq]

theorem notify_busy (n : ℕ) (e : HsmEvent) (s : StateRef) {w : RadioWorld} (h : w.hsmTran = true) :
    (dt.notify (dt.hsmTran (n + 1)) e s).run w =
      .ok () (w.note (busyLog w.curState e s) (busyTrace w.curState e s)) := by
  simp only [Machine.notify, call_eq, Prog.run_bind, observe_eq, busyLog, busyTrace]
  cases reaction s e with
  | pass code => simp
  | tran t =>
      simp only [Prog.run_bind, state2_eq]
      rw [hsmTran_busy n t _ (by simpa using h)]
      simp [World.note_note]

theorem notifyAll_busy (n : ℕ) (e : HsmEvent) (l : List StateRef) {w : RadioWorld}
    (h : w.hsmTran = true) :
    (dt.notifyAll (dt.hsmTran (n + 1)) e l).run w =
      .ok () (w.note (l.flatMap (busyLog w.curState e)) (l.flatMap (busyTrace w.curState e))) := by
  induction l generalizing w with
  | nil => simp [Machine.notifyAll, World.note_nil]
  | cons s ss ih =>
      simp only [Machine.notifyAll, Prog.run_bind, notify_busy n e s h]
      rw [ih (by simpa using h)]
      simp [World.note_note]

/-! ## Display -/

def Memory.shown (mem : Memory) (v : CStr) : Memory :=
  { mem with root := displayRoot mem.root v, displayed := mem.displayed ++ [v] }

def Memory.saved (mem : Memory) (res : List UInt8) : Memory :=
  { mem with file := ((mem.writes.headD .complete).save res mem.file).1, writes := mem.writes.tail }

theorem display_ok {v res : CStr} {w : RadioWorld}
    (h : cjsonPrint (displayRoot w.mem.root v) = .ok res) :
    (display v).run w = .ok () { w with mem := (w.mem.shown v).saved res.bytes } := by
  simp only [display, modifyMem, Prog.run_modify_bind, Prog.run_get_bind, h]
  rfl

theorem display_error {v : CStr} {why : PrintFail} {w : RadioWorld}
    (h : cjsonPrint (displayRoot w.mem.root v) = .error why) :
    (display v).run w = .stop (.app (.nullString why)) { w with mem := w.mem.shown v } := by
  simp only [display, modifyMem, Prog.run_modify_bind, Prog.run_get_bind, h]
  rfl

/-! ## A transition -/

/-- `list_exit` of a transition. -/
def exitList (s t : StateRef) : List StateRef :=
  match dt.tranLists s t with
  | .ok (listExit, _) => listExit
  | .error _ => []

/-- `list_entry` of a transition, in the order in which it is used. -/
def entryList (s t : StateRef) : List StateRef :=
  match dt.tranLists s t with
  | .ok (_, listEntry) => listEntry.reverse
  | .error _ => []

theorem tranLists_eq (s t : StateRef) :
    dt.tranLists s t = .ok (exitList s t, (entryList s t).reverse) := by
  cases s <;> cases t <;> rfl

/-- The world while the method hook of a transition to `t` runs. -/
def World.leaving (w : RadioWorld) (t : StateRef) : RadioWorld :=
  { w with hsmTran := true }.note
    ((exitList w.curState t).flatMap (busyLog w.curState hsmeExit))
    ((exitList w.curState t).flatMap (busyTrace w.curState hsmeExit))

/-- The world after a transition to `t` whose hook left `w`. -/
def World.entering (w : RadioWorld) (t : StateRef) : RadioWorld :=
  { w with curState := t, hsmTran := false }.note
    ((entryList w.curState t).flatMap (busyLog w.curState hsmeEntry))
    ((entryList w.curState t).flatMap (busyTrace w.curState hsmeEntry) ++
      [Obs.completed w.curState t, Obs.notified t hsmeInit])

theorem notify_init (n : ℕ) (s : StateRef) (w : RadioWorld) :
    (dt.notify (dt.hsmTran n) hsmeInit s).run w = .ok () (w.note [] [.notified s hsmeInit]) := by
  simp [Machine.notify, call_eq, Prog.run_bind, observe_eq, reaction_init]

theorem notifyAll_leaving (n : ℕ) (t : StateRef) (w : RadioWorld) :
    (dt.notifyAll (dt.hsmTran (n + 1)) hsmeExit (exitList w.curState t)).run
      { w with hsmTran := true } =
      .ok () (w.leaving t) :=
  notifyAll_busy n _ _ rfl

/-- `HSM_Tran` with `Display` as its hook, on an idle machine. -/
theorem hsmTran_idle (n : ℕ) (t : StateRef) {v res : CStr} {w : RadioWorld} (h : w.hsmTran = false)
    (hp : cjsonPrint (displayRoot w.mem.root v) = .ok res) :
    (dt.hsmTran (n + 2) t (some (display v))).run w =
      .ok () (World.entering { w.leaving t with mem := ((w.leaving t).mem.shown v).saved res.bytes }
        t) := by
  rw [Machine.hsmTran]
  simp only [Prog.run_get_bind, h, Bool.false_eq_true, ↓reduceIte, Prog.run_modify_bind, tranLists_eq]
  rw [Prog.run_bind_ok (notifyAll_leaving n t w), Prog.run_bind_ok (display_ok (w := w.leaving t) hp),
    List.reverse_reverse, Prog.run_bind_ok (notifyAll_busy n _ _ rfl)]
  simp only [Prog.run_bind, observe_eq, notify_init]
  simp [World.note, World.entering, World.leaving]

theorem hsmTran_error (n : ℕ) (t : StateRef) {v : CStr} {why : PrintFail} {w : RadioWorld}
    (h : w.hsmTran = false) (hp : cjsonPrint (displayRoot w.mem.root v) = .error why) :
    (dt.hsmTran (n + 2) t (some (display v))).run w =
      .stop (.app (.nullString why)) { w.leaving t with mem := (w.leaving t).mem.shown v } := by
  rw [Machine.hsmTran]
  simp only [Prog.run_get_bind, h, Bool.false_eq_true, ↓reduceIte, Prog.run_modify_bind, tranLists_eq]
  rw [Prog.run_bind_ok (notifyAll_leaving n t w),
    Prog.run_bind_stop (display_error (w := w.leaving t) hp)]

/-! ## Dispatch -/

theorem chain_eq (s : StateRef) : chain s = s :: ((objects s).parent.map chain).getD [] := by
  cases s <;> rfl

theorem reaction_of_parent_none {s : StateRef} (h : (objects s).parent = none) (e : HsmEvent) :
    reaction s e = .pass hsmeNull := by
  cases s <;> first | rfl | cases h

/-- The loop of `HSM_Run` follows `dispatch` along the chain, and ends in at most one call of
`State2…`. -/
theorem hsmRunLoop_eq (tran : RadioTran) {n : ℕ} {s : StateRef} (e : HsmEvent) (w : RadioWorld)
    (hn : (chain s).length < n) :
    (dt.hsmRunLoop tran n e (some s)).run w =
      match (dispatch (chain s) e).2 with
      | none => .ok () (w.note [] (dispatch (chain s) e).1)
      | some t => (state2 objects tran t (stateName t)).run (w.note [] (dispatch (chain s) e).1) := by
  induction n generalizing s e w with
  | zero => omega
  | succ n ih =>
      have hc := chain_eq s
      rw [hc] at hn ⊢
      simp only [List.length_cons] at hn
      simp only [Machine.hsmRunLoop, dispatch]
      by_cases he : e = hsmeNull
      · simp [he, World.note_nil]
      simp only [he, ↓reduceIte, Prog.run_bind, observe_eq, call_eq]
      cases hr : reaction s e with
      | tran t =>
          -- the handler returns EXIT_SUCCESS, which ends the loop
          obtain ⟨n, rfl⟩ : ∃ k, n = k + 1 := ⟨n - 1, by omega⟩
          simp only [Prog.run_bind]
          cases (state2 objects tran t (stateName t)).run (w.note [] [.handled s e]) <;>
            simp [Machine.hsmRunLoop, exitSuccess, hsmeNull]
      | pass code =>
          simp only [Prog.run_pure]
          cases hp : (objects s).parent with
          | none =>
              -- the root handler returns HSME_NULL
              obtain ⟨n, rfl⟩ : ∃ k, n = k + 1 := ⟨n - 1, by omega⟩
              rw [reaction_of_parent_none hp, Reaction.pass.injEq] at hr
              subst hr
              simp [Machine.hsmRunLoop, dispatch]
          | some p =>
              have hs : (dt.state s).parent = some p := hp
              rw [hs, ih code _ (by simp only [hp, Option.map_some, Option.getD_some] at hn; omega)]
              simp only [Option.map_some, Option.getD_some, World.note_note, List.append_nil,
                List.singleton_append]

theorem chain_length (s : StateRef) : (chain s).length < hsmMaxDepth + 1 := by
  cases s <;> decide

def World.requested (w : RadioWorld) (e : HsmEvent) (t : StateRef) : RadioWorld :=
  w.note [(stateName w.curState, stateName t)] (dispatch (chain w.curState) e).1

theorem dtRun_eq (e : HsmEvent) (w : RadioWorld) :
    (dtRun e).run w =
      match next w.curState e with
      | none => .ok () (w.note [] (dispatch (chain w.curState) e).1)
      | some t => (dt.hsmTran Machine.tranFuel t (some (display (stateName t)))).run
          (w.requested e t) := by
  simp only [dtRun, Machine.hsmRun, Machine.runWith, Prog.run_get_bind,
    hsmRunLoop_eq _ e w (chain_length _), next]
  cases (dispatch (chain w.curState) e).2 with
  | none => rfl
  | some t => simp [state2_eq, World.requested, World.note_note]

/-! ## The three results of an event -/

/-- The lines that a transition from `s` to `t` leaves in the log. -/
def tranLog (s t : StateRef) : List (CStr × CStr) :=
  (stateName s, stateName t) :: (exitList s t).flatMap (busyLog s hsmeExit)

def tranTrace (s : StateRef) (e : HsmEvent) (t : StateRef) : List (Obs StateRef) :=
  (dispatch (chain s) e).1 ++ (exitList s t).flatMap (busyTrace s hsmeExit) ++
    (entryList s t).flatMap (busyTrace s hsmeEntry) ++ [Obs.completed s t, Obs.notified t hsmeInit]

/-- The world after an event that led to `t`, where `res` was written. -/
def World.moved (w : RadioWorld) (e : HsmEvent) (t : StateRef) (res : List UInt8) : RadioWorld where
  curState := t
  hsmTran := false
  mem :=
    { root := displayRoot w.mem.root (stateName t)
      file := ((w.mem.writes.headD .complete).save res w.mem.file).1
      writes := w.mem.writes.tail
      log := w.mem.log ++ tranLog w.curState t
      displayed := w.mem.displayed ++ [stateName t] }
  trace := w.trace ++ tranTrace w.curState e t

/-- The world in which the program dies because the document could not be printed. -/
def World.halted (w : RadioWorld) (e : HsmEvent) (t : StateRef) : RadioWorld where
  curState := w.curState
  hsmTran := true
  mem :=
    { root := displayRoot w.mem.root (stateName t)
      file := w.mem.file
      writes := w.mem.writes
      log := w.mem.log ++ tranLog w.curState t
      displayed := w.mem.displayed ++ [stateName t] }
  trace := w.trace ++
    ((dispatch (chain w.curState) e).1 ++
      (exitList w.curState t).flatMap (busyTrace w.curState hsmeExit))

theorem busyLog_entry (cur s : StateRef) : busyLog cur hsmeEntry s = [] := by
  cases s <;> rfl

theorem dtRun_none {e : HsmEvent} {w : RadioWorld} (h : next w.curState e = none) :
    (dtRun e).run w = .ok () (w.note [] (dispatch (chain w.curState) e).1) := by
  simp [dtRun_eq, h]

theorem dtRun_ok {e : HsmEvent} {t : StateRef} {w : RadioWorld} {res : CStr}
    (hidle : w.hsmTran = false) (h : next w.curState e = some t)
    (hp : cjsonPrint (displayRoot w.mem.root (stateName t)) = .ok res) :
    (dtRun e).run w = .ok () (w.moved e t res.bytes) := by
  simp only [dtRun_eq, h, Machine.tranFuel]
  rw [hsmTran_idle 0 t (w := w.requested e t) hidle hp]
  simp [World.entering, World.leaving, World.requested, World.note, World.moved,
    Memory.shown, Memory.saved, tranLog, tranTrace, busyLog_entry]

theorem dtRun_error {e : HsmEvent} {t : StateRef} {w : RadioWorld} {why : PrintFail}
    (hidle : w.hsmTran = false) (h : next w.curState e = some t)
    (hp : cjsonPrint (displayRoot w.mem.root (stateName t)) = .error why) :
    (dtRun e).run w = .stop (.app (.nullString why)) (w.halted e t) := by
  simp only [dtRun_eq, h, Machine.tranFuel]
  rw [hsmTran_error 0 t (w := w.requested e t) hidle hp]
  simp [World.leaving, World.requested, World.note, World.halted, Memory.shown, tranLog]

end CppJson
