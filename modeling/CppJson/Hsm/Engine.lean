import CppJson.Libc.Bytes
import CppJson.Lib.Prog

/-!
# The hierarchical state machine engine

`hsm.c`, for any set of state objects and any handlers. `Ref` is the type of the addresses of
`HSM_STATE` objects, `Fn` that of function pointers to handlers, `σ` the memory the handlers share,
`ε` the reasons for which a handler may never return. The debug prints, with the nesting level and
the configuration that steer them, are left out.
-/

namespace CppJson

abbrev HsmEvent := UInt32

def hsmeNull : HsmEvent := 0
def hsmeStart : HsmEvent := 1
def hsmeInit : HsmEvent := -3
def hsmeEntry : HsmEvent := -2
def hsmeExit : HsmEvent := -1

def hsmMaxDepth : ℕ := 5

structure HsmState (Ref Fn : Type) where
  parent : Option Ref
  handler : Fn
  name : CStr
  level : ℕ

/-- What the engine does that can be seen from outside. -/
inductive Obs (Ref : Type) where
  /-- `HSM_Run` passes an event to a handler. -/
  | handled (state : Ref) (event : HsmEvent)
  /-- `HSM_Tran` or `HSM_Create` sends ENTRY, EXIT or INIT. -/
  | notified (state : Ref) (event : HsmEvent)
  /-- `HSM_Tran` returns at once because a transition is under way. -/
  | rejected (src dst : Ref)
  /-- `HSM_Tran` has set the destination state. -/
  | completed (src dst : Ref)
deriving DecidableEq

/-- The `HSM` object, the memory of the handlers, and the observations so far. -/
structure World (Ref σ : Type) where
  curState : Ref
  hsmTran : Bool
  mem : σ
  trace : List (Obs Ref)

/-- Why a call never returns. -/
inductive Fault (ε : Type) where
  | app (reason : ε)
  | nullState
  /-- `list_exit` or `list_entry` is written past its end. -/
  | listOverflow
  /-- `HSM_STATE_Create` loops for ever. -/
  | hang
  /-- `HSM_Tran` calls itself deeper than the model follows. -/
  | tooDeep
  /-- A loop of the engine goes on for longer than the model follows. -/
  | outOfFuel
deriving DecidableEq

variable {Ref Fn σ ε : Type}

abbrev HsmProg (Ref σ ε : Type) := Prog (Fault ε) (World Ref σ)

abbrev Tran (Ref σ ε : Type) := Ref → Option (HsmProg Ref σ ε Unit) → HsmProg Ref σ ε Unit

/-- The state objects, and what calling a handler does. A handler gets the `HSM_Tran` it may
call. -/
structure Machine (Ref Fn σ ε : Type) where
  state : Ref → HsmState Ref Fn
  call : Fn → Tran Ref σ ε → HsmEvent → HsmProg Ref σ ε HsmEvent

def observe (o : Obs Ref) : HsmProg Ref σ ε Unit :=
  Prog.modify fun w => { w with trace := w.trace ++ [o] }

/-- `HSM_STATE_Create`: `none` when it does not return. -/
def hsmStateCreate [DecidableEq Ref] (objects : Ref → HsmState Ref Fn) (hsmRoot this : Ref)
    (name : CStr) (handler : Fn) (parent : Option Ref) : Option (Ref → HsmState Ref Fn) :=
  let parent := parent.getD hsmRoot
  let level := (objects parent).level + 1
  if hsmMaxDepth ≤ level then none
  else some (Function.update objects this ⟨some parent, handler, name, level⟩)

/-- What a call of `HSM_STATE_Create` is given. -/
structure StateArgs (Ref Fn : Type) where
  this : Ref
  name : CStr
  handler : Fn
  parent : Option Ref

/-- The calls of `HSM_STATE_Create` that set up a machine, in order. -/
def hsmStatesCreate [DecidableEq Ref] (hsmRoot : Ref) (objects : Ref → HsmState Ref Fn)
    (calls : List (StateArgs Ref Fn)) : Option (Ref → HsmState Ref Fn) :=
  calls.foldlM (fun objects c => hsmStateCreate objects hsmRoot c.this c.name c.handler c.parent)
    objects

namespace Machine

variable (m : Machine Ref Fn σ ε)

/-! ## The common parent -/

/-- `list[cnt++] = state` -/
def pushState (list : List Ref) (s : Ref) : Except (Fault ε) (List Ref) :=
  if list.length < hsmMaxDepth then .ok (list ++ [s]) else .error .listOverflow

/-- The loop of step 1a of `HSM_Tran`: equalize the levels. -/
def equalizeLevels : ℕ → Option Ref → Option Ref → List Ref → List Ref →
    Except (Fault ε) (Option Ref × Option Ref × List Ref × List Ref)
  | 0, _, _, _, _ => .error .outOfFuel
  | n + 1, src, dst, listExit, listEntry =>
      match src, dst with
      | some s, some d =>
          if (m.state s).level = (m.state d).level then .ok (src, dst, listExit, listEntry)
          else if (m.state d).level < (m.state s).level then do
            let listExit ← pushState listExit s
            equalizeLevels n (m.state s).parent dst listExit listEntry
          else do
            let listEntry ← pushState listEntry d
            equalizeLevels n src (m.state d).parent listExit listEntry
      | _, _ => .error .nullState

/-- The loop of step 1b of `HSM_Tran`: find the common parent. -/
def findCommonParent [DecidableEq Ref] : ℕ → Option Ref → Option Ref → List Ref → List Ref →
    Except (Fault ε) (List Ref × List Ref)
  | 0, _, _, _, _ => .error .outOfFuel
  | n + 1, src, dst, listExit, listEntry =>
      if src = dst then .ok (listExit, listEntry)
      else
        match src, dst with
        | some s, some d => do
            let listExit ← pushState listExit s
            let listEntry ← pushState listEntry d
            findCommonParent n (m.state s).parent (m.state d).parent listExit listEntry
        | _, _ => .error .nullState

/-- Step 1 of `HSM_Tran`: `list_exit` and `list_entry`. Every round of a loop fills a place of a
list. -/
def tranLists [DecidableEq Ref] (src dst : Ref) : Except (Fault ε) (List Ref × List Ref) := do
  let (src, dst, listExit, listEntry) ← m.equalizeLevels (2 * hsmMaxDepth + 1) (some src)
    (some dst) [] []
  m.findCommonParent (2 * hsmMaxDepth + 1) src dst listExit listEntry

/-! ## Transitions -/

/-- One of the engine's own events for a handler, whose result is dropped. -/
def notify (tran : Tran Ref σ ε) (event : HsmEvent) (s : Ref) : HsmProg Ref σ ε Unit := do
  observe (.notified s event)
  let _ ← m.call (m.state s).handler tran event

/-- The loops of steps 2 and 4 of `HSM_Tran`. -/
def notifyAll (tran : Tran Ref σ ε) (event : HsmEvent) : List Ref → HsmProg Ref σ ε Unit
  | [] => pure ()
  | s :: ss => do
      m.notify tran event s
      notifyAll tran event ss

/-- `HSM_Tran`, nested at most as deep as the fuel says. -/
def hsmTran [DecidableEq Ref] : ℕ → Tran Ref σ ε
  | 0, _, _ => Prog.stop .tooDeep
  | n + 1, nextState, method => do
      let w ← Prog.get
      if w.hsmTran then observe (.rejected w.curState nextState)
      else
        Prog.modify fun w => { w with hsmTran := true }
        match m.tranLists w.curState nextState with
        | .error e => Prog.stop e
        | .ok (listExit, listEntry) =>
            m.notifyAll (hsmTran n) hsmeExit listExit
            if let some hook := method then hook
            m.notifyAll (hsmTran n) hsmeEntry listEntry.reverse
            Prog.modify fun w => { w with curState := nextState }
            Prog.modify fun w => { w with hsmTran := false }
            observe (.completed w.curState nextState)
            m.notify (hsmTran n) hsmeInit nextState

/-! ## Events -/

/-- The loop of `HSM_Run`. -/
def hsmRunLoop (tran : Tran Ref σ ε) : ℕ → HsmEvent → Option Ref → HsmProg Ref σ ε Unit
  | 0, _, _ => Prog.stop .outOfFuel
  | n + 1, event, state =>
      if event = hsmeNull then pure ()
      else
        match state with
        | none => Prog.stop .nullState
        | some s => do
            observe (.handled s event)
            let event ← m.call (m.state s).handler tran event
            hsmRunLoop tran n event (m.state s).parent

/-- `HSM_Run`, with `HSM_Tran` nested at most `n` deep. -/
def runWith [DecidableEq Ref] (n : ℕ) (event : HsmEvent) : HsmProg Ref σ ε Unit := do
  let w ← Prog.get
  m.hsmRunLoop (m.hsmTran n) (hsmMaxDepth + 1) event (some w.curState)

/-- `HSM_Create` once `curState` is set, with `HSM_Tran` nested at most `n` deep. -/
def createWith [DecidableEq Ref] (n : ℕ) (initState : Ref) : HsmProg Ref σ ε Unit := do
  m.notify (m.hsmTran n) hsmeEntry initState
  -- the ENTRY handler may have called `HSM_Tran`
  let w ← Prog.get
  m.notify (m.hsmTran n) hsmeInit w.curState

/-- How deep the radio nests `HSM_Tran`: a transition, and the call that its exit handlers may
make. -/
def tranFuel : ℕ := 2

def hsmRun [DecidableEq Ref] (event : HsmEvent) : HsmProg Ref σ ε Unit := m.runWith tranFuel event

/-- `HSM_Create`, on an `HSM` object in static storage. -/
def hsmCreate [DecidableEq Ref] (initState : Ref) (mem : σ) : Outcome (Fault ε) (World Ref σ) Unit :=
  (m.createWith tranFuel initState).run ⟨initState, false, mem, []⟩

/-! ## Queries -/

/-- The loop of `HSM_IsInState`: `none` when it does not end. -/
def isInStateLoop [DecidableEq Ref] (state : Ref) : ℕ → Option Ref → Option Bool
  | 0, _ => none
  | _ + 1, none => some false
  | n + 1, some curState =>
      if state = curState then some true else isInStateLoop state n (m.state curState).parent

def hsmIsInState [DecidableEq Ref] (w : World Ref σ) (state : Ref) : Option Bool :=
  m.isInStateLoop state (hsmMaxDepth + 1) (some w.curState)

end Machine

end CppJson
