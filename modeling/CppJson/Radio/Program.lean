import CppJson.CJson.Parse
import CppJson.CJson.Print
import CppJson.CJson.Object
import CppJson.Hsm.Engine

/-!
# The radio program

`main.cpp` with `ReadFile` and `SaveToFile`. The document that `main` passes to every `DT_Run` is
reached through one pointer, so it is kept in the memory next to the JSON file and the log. The time
stamp of a log line, the prompts and the other output to the terminal are left out, as is `name` of
`DT_Init`, which only the debug prints show.
-/

namespace CppJson

/-! ## Constants -/

def dteJoin : HsmEvent := hsmeStart
def dteJoinN1 : HsmEvent := hsmeStart + 1
def dteJoinN2 : HsmEvent := hsmeStart + 2
def dteError : HsmEvent := hsmeStart + 3
def dteMaintain : HsmEvent := hsmeStart + 4

def jsonKey : CStr := ⟨ascii "dt", by decide⟩
def jsonJoin : CStr := ⟨ascii "normal", by decide⟩
def jsonJoinN1 : CStr := ⟨ascii "normal.n1", by decide⟩
def jsonJoinN2 : CStr := ⟨ascii "normal.n2", by decide⟩
def jsonDamage : CStr := ⟨ascii "damage", by decide⟩
def jsonMaintain : CStr := ⟨ascii "maintenance", by decide⟩

def exitSuccess : HsmEvent := 0

def exitFailure : HsmEvent := 1

inductive StateRef where
  | hsmRoot
  | dtsNormal
  | dtsNormalN1
  | dtsNormalN2
  | dtsDamage
  | dtsMaintenance
deriving DecidableEq

inductive Handler where
  | hsmRootHandler
  | dtStateNormalHndlr
  | dtStateNormalN1Hndlr
  | dtStateNormalN2Hndlr
  | dtStateDamageHndlr
  | dtStateMaintainanceHndlr
deriving DecidableEq

/-! ## Memory and files -/

/-- What happens to one write of `SaveToFile`. -/
inductive WriteOutcome where
  | complete
  | openRefused
  /-- `out << str` stops after some bytes. -/
  | cutShort (n : ℕ)
  /-- The flush in `out.close()` fails after some bytes. -/
  | flushFailed (n : ℕ)
deriving DecidableEq

structure Memory where
  /-- The document that `param` points at. -/
  root : Option Item
  /-- The JSON file; `none` when it cannot be read. -/
  file : Option (List UInt8)
  /-- The outcomes of the coming writes. When the list is used up, writes succeed. -/
  writes : List WriteOutcome
  /-- The states named in each line that `log2file` wrote. -/
  log : List (CStr × CStr)
  /-- The values that `Display` was called with. -/
  displayed : List CStr

inductive RadioFault where
  /-- A NULL result of `cJSON_Print` is made a `std::string` or streamed. -/
  | nullString (why : PrintFail)
deriving DecidableEq

abbrev RadioWorld := World StateRef Memory
abbrev RadioProg := HsmProg StateRef Memory RadioFault
abbrev RadioTran := Tran StateRef Memory RadioFault

def modifyMem (f : Memory → Memory) : RadioProg Unit := Prog.modify fun w => { w with mem := f w.mem }

/-- `ReadFile`: whether it succeeded, and `str`, which it leaves empty otherwise. -/
def readFile (file : Option (List UInt8)) : Bool × List UInt8 :=
  match file with
  | none => (false, [])
  | some text => (true, text)

/-- The file after one write, and what `SaveToFile` returns. -/
def WriteOutcome.save (str : List UInt8) (file : Option (List UInt8)) :
    WriteOutcome → Option (List UInt8) × Bool
  | complete => (some str, true)
  | openRefused => (file, false)
  | cutShort n => (some (str.take n), true)
  | flushFailed n => (some (str.take n), true)

def saveToFile (str : List UInt8) : RadioProg Bool := do
  let w ← Prog.get
  let (file, result) := (w.mem.writes.headD .complete).save str w.mem.file
  modifyMem fun mem => { mem with file := file, writes := mem.writes.tail }
  return result

/-! ## Display and log -/

/-- What `Display` does to the document. -/
def displayRoot (jsonRoot : Option Item) (jsonValue : CStr) : Option Item :=
  let found := do
    let i ← cjsonGetObjectItem jsonRoot jsonKey
    let root ← jsonRoot
    root.child[i]?
  match found with
  | none => cjsonAddStringToObject jsonRoot jsonKey jsonValue
  | some item =>
      match item.kind with
      | .null => cjsonAddStringToObject jsonRoot jsonKey jsonValue
      | _ => cjsonReplaceItemInObject jsonRoot jsonKey (cjsonCreateString jsonValue)

def display (jsonValue : CStr) : RadioProg Unit := do
  modifyMem fun mem => { mem with displayed := mem.displayed ++ [jsonValue] }
  modifyMem fun mem => { mem with root := displayRoot mem.root jsonValue }
  let w ← Prog.get
  match cjsonPrint w.mem.root with
  | .error why => Prog.stop (.app (.nullString why))
  | .ok res =>
      let _ ← saveToFile res.bytes

section Handlers

variable (objects : StateRef → HsmState StateRef Handler) (tran : RadioTran)

def log2file (state : StateRef) : RadioProg Unit := do
  let w ← Prog.get
  let line := ((objects w.curState).name, (objects state).name)
  modifyMem fun mem => { mem with log := mem.log ++ [line] }

/-! ## State changes -/

/-- What the `State2…` functions share. -/
def state2 (nextState : StateRef) (jsonValue : CStr) : RadioProg Unit := do
  log2file objects nextState
  tran nextState (some (display jsonValue))

def state2Error : RadioProg Unit := state2 objects tran .dtsDamage jsonDamage
def state2Normal : RadioProg Unit := state2 objects tran .dtsNormal jsonJoin
def state2NormalN1 : RadioProg Unit := state2 objects tran .dtsNormalN1 jsonJoinN1
def state2NormalN2 : RadioProg Unit := state2 objects tran .dtsNormalN2 jsonJoinN2
def state2Maintain : RadioProg Unit := state2 objects tran .dtsMaintenance jsonMaintain

/-! ## Handlers -/

def hsmRootHandler (_event : HsmEvent) : RadioProg HsmEvent := return hsmeNull

def dtStateNormalHndlr (event : HsmEvent) : RadioProg HsmEvent := do
  if event = dteError then
    state2Error objects tran
    return exitSuccess
  else if event = dteMaintain then
    state2Maintain objects tran
    return exitSuccess
  else if event = dteJoinN1 then
    state2NormalN1 objects tran
    return exitSuccess
  else if event = dteJoinN2 then
    state2NormalN2 objects tran
    return exitSuccess
  else return event

def dtStateNormalN1Hndlr (event : HsmEvent) : RadioProg HsmEvent := do
  if event = hsmeExit then
    state2Normal objects tran
    return exitSuccess
  else if event = dteJoinN2 then
    state2NormalN2 objects tran
    return exitSuccess
  else if event = dteError ∨ event = dteMaintain then return exitFailure
  else return event

def dtStateNormalN2Hndlr (event : HsmEvent) : RadioProg HsmEvent := do
  if event = dteError then
    state2Error objects tran
    return exitSuccess
  else if event = dteMaintain then
    state2Maintain objects tran
    return exitSuccess
  else if event = dteJoin then return exitFailure
  else return event

def dtStateDamageHndlr (event : HsmEvent) : RadioProg HsmEvent := do
  if event = dteJoin then
    state2Normal objects tran
    return exitSuccess
  else if event = dteMaintain then
    state2Maintain objects tran
    return exitSuccess
  else return event

def dtStateMaintainanceHndlr (event : HsmEvent) : RadioProg HsmEvent := do
  if event = dteJoin then
    state2Normal objects tran
    return exitSuccess
  else if event = dteError then
    state2Error objects tran
    return exitSuccess
  else return event

def callHandler : Handler → HsmEvent → RadioProg HsmEvent
  | .hsmRootHandler => hsmRootHandler
  | .dtStateNormalHndlr => dtStateNormalHndlr objects tran
  | .dtStateNormalN1Hndlr => dtStateNormalN1Hndlr objects tran
  | .dtStateNormalN2Hndlr => dtStateNormalN2Hndlr objects tran
  | .dtStateDamageHndlr => dtStateDamageHndlr objects tran
  | .dtStateMaintainanceHndlr => dtStateMaintainanceHndlr objects tran

end Handlers

/-! ## Start -/

/-- The state objects before `DT_Init`: only `HSM_ROOT` is initialized. -/
def hsmRootObject : HsmState StateRef Handler := ⟨none, .hsmRootHandler, ⟨ascii ":ROOT:", by decide⟩, 0⟩

/-- The `HSM_STATE_Create` calls of `DT_Init`. -/
def createStates : Option (StateRef → HsmState StateRef Handler) := do
  let objects := fun _ => hsmRootObject
  let objects ← hsmStateCreate objects .hsmRoot .dtsNormal jsonJoin .dtStateNormalHndlr none
  let objects ← hsmStateCreate objects .hsmRoot .dtsNormalN1 jsonJoinN1 .dtStateNormalN1Hndlr
    (some .dtsNormal)
  let objects ← hsmStateCreate objects .hsmRoot .dtsNormalN2 jsonJoinN2 .dtStateNormalN2Hndlr
    (some .dtsNormal)
  let objects ← hsmStateCreate objects .hsmRoot .dtsDamage jsonDamage .dtStateDamageHndlr none
  hsmStateCreate objects .hsmRoot .dtsMaintenance jsonMaintain .dtStateMaintainanceHndlr none

/-- The state objects as `DT_Init` leaves them. -/
def objects : StateRef → HsmState StateRef Handler
  | .hsmRoot => hsmRootObject
  | .dtsNormal => ⟨some .hsmRoot, .dtStateNormalHndlr, jsonJoin, 1⟩
  | .dtsNormalN1 => ⟨some .dtsNormal, .dtStateNormalN1Hndlr, jsonJoinN1, 2⟩
  | .dtsNormalN2 => ⟨some .dtsNormal, .dtStateNormalN2Hndlr, jsonJoinN2, 2⟩
  | .dtsDamage => ⟨some .hsmRoot, .dtStateDamageHndlr, jsonDamage, 1⟩
  | .dtsMaintenance => ⟨some .hsmRoot, .dtStateMaintainanceHndlr, jsonMaintain, 1⟩

theorem createStates_eq : createStates = some objects := by
  have h : createStates = some fun r => (createStates.get (by decide)) r := (Option.some_get _).symm
  rw [h, Option.some.injEq]
  funext r
  cases r <;> rfl

def dtMachine (objects : StateRef → HsmState StateRef Handler) :
    Machine StateRef Handler Memory RadioFault where
  state := objects
  call f tran := callHandler objects tran f

abbrev dt : Machine StateRef Handler Memory RadioFault := dtMachine objects

def dtInit (mem : Memory) : Outcome (Fault RadioFault) RadioWorld Unit :=
  match createStates with
  | none => .stop .hang ⟨.hsmRoot, false, mem, []⟩
  | some objects => (dtMachine objects).hsmCreate .dtsNormal mem

def dtRun (event : HsmEvent) : RadioProg Unit := dt.hsmRun event

/-! ## `main` -/

def command (input : UInt8) : Option HsmEvent :=
  if input = byte 'd' then some dteError
  else if input = byte 'm' then some dteMaintain
  else if input = byte 'n' then some dteJoin
  else if input = byte '1' then some dteJoinN1
  else if input = byte '2' then some dteJoinN2
  else if input = byte 'e' then some hsmeExit
  else none

/-- `cout << cJSON_Print(cjson_root)`. Streaming NULL is undefined and counts as the end of the run,
though a `cout` may go on with its error bit set. -/
def streamRoot : RadioProg Unit := do
  let w ← Prog.get
  match cjsonPrint w.mem.root with
  | .error why => Prog.stop (.app (.nullString why))
  | .ok _ => return ()

/-- The body of the command loop, for a character other than `E`. -/
def loopBody (input : UInt8) : RadioProg Unit := do
  match command input with
  | some event => dtRun event
  | none => pure ()
  streamRoot

/-- The command loop over the characters that `cin >> input` leaves in `input`: true when it
returns, false when it waits for the next character. -/
def commandLoop : List UInt8 → RadioProg Bool
  | [] => return false
  | input :: inputs => do
      if input = byte 'E' then return true
      loopBody input
      commandLoop inputs

/-- The memory when the loop starts. -/
def loadMemory (file : Option (List UInt8)) (writes : List WriteOutcome) : Memory where
  root := cjsonParse (cstr (readFile file).2)
  file := file
  writes := writes
  log := []
  displayed := []

theorem root_loadMemory (file : Option (List UInt8)) (writes : List WriteOutcome) :
    (loadMemory file writes).root = cjsonParse (cstr (readFile file).2) := rfl

def main (file : Option (List UInt8)) (writes : List WriteOutcome) (inputs : List UInt8) :
    Outcome (Fault RadioFault) RadioWorld Bool :=
  match dtInit (loadMemory file writes) with
  | .stop e w => .stop e w
  | .ok () w => (commandLoop inputs).run w

end CppJson
