import CppJson.Lib.Upsert
import CppJson.CJson.Lemmas.Object
import CppJson.Radio.Input

/-!
# The radio as a table

What the handlers do, without the calls in between: a handler either passes a code on or asks for
one transition, and an event leads from a state to at most one next state.
-/

namespace CppJson

open Json

/-- A handler returns a code, or asks for a transition and returns `EXIT_SUCCESS`. -/
inductive Reaction where
  | pass (code : HsmEvent)
  | tran (target : StateRef)
deriving DecidableEq

def react : Handler → HsmEvent → Reaction
  | .hsmRootHandler, _ => .pass hsmeNull
  | .dtStateNormalHndlr, e =>
      if e = dteError then .tran .dtsDamage
      else if e = dteMaintain then .tran .dtsMaintenance
      else if e = dteJoinN1 then .tran .dtsNormalN1
      else if e = dteJoinN2 then .tran .dtsNormalN2
      else .pass e
  | .dtStateNormalN1Hndlr, e =>
      if e = hsmeExit then .tran .dtsNormal
      else if e = dteJoinN2 then .tran .dtsNormalN2
      else if e = dteError ∨ e = dteMaintain then .pass exitFailure
      else .pass e
  | .dtStateNormalN2Hndlr, e =>
      if e = dteError then .tran .dtsDamage
      else if e = dteMaintain then .tran .dtsMaintenance
      else if e = dteJoin then .pass exitFailure
      else .pass e
  | .dtStateDamageHndlr, e =>
      if e = dteJoin then .tran .dtsNormal
      else if e = dteMaintain then .tran .dtsMaintenance
      else .pass e
  | .dtStateMaintainanceHndlr, e =>
      if e = dteJoin then .tran .dtsNormal
      else if e = dteError then .tran .dtsDamage
      else .pass e

def reaction (s : StateRef) (e : HsmEvent) : Reaction := react (objects s).handler e

/-- The name of a state, which is also the value recorded for it in the document. -/
def stateName (s : StateRef) : CStr := (objects s).name

/-- The handlers that an event may reach from a state, from the innermost one to the root. -/
def chain : StateRef → List StateRef
  | .hsmRoot => [.hsmRoot]
  | .dtsNormal => [.dtsNormal, .hsmRoot]
  | .dtsNormalN1 => [.dtsNormalN1, .dtsNormal, .hsmRoot]
  | .dtsNormalN2 => [.dtsNormalN2, .dtsNormal, .hsmRoot]
  | .dtsDamage => [.dtsDamage, .hsmRoot]
  | .dtsMaintenance => [.dtsMaintenance, .hsmRoot]

/-- Bubbling along a chain: the handler calls, and the transition that ends them if there is one. -/
def dispatch : List StateRef → HsmEvent → List (Obs StateRef) × Option StateRef
  | [], _ => ([], none)
  | s :: ss, e =>
      if e = hsmeNull then ([], none)
      else
        match reaction s e with
        | .tran t => ([.handled s e], some t)
        | .pass code => (.handled s e :: (dispatch ss code).1, (dispatch ss code).2)

/-- The state that an event leads to, if it leads to a transition. -/
def next (s : StateRef) (e : HsmEvent) : Option StateRef := (dispatch (chain s) e).2

/-! ## The table -/

theorem next_dtsNormal (e : HsmEvent) : next .dtsNormal e =
    if e = dteError then some .dtsDamage
    else if e = dteMaintain then some .dtsMaintenance
    else if e = dteJoinN1 then some .dtsNormalN1
    else if e = dteJoinN2 then some .dtsNormalN2
    else none := by
  by_cases h0 : e = hsmeNull
  · subst h0; decide
  simp only [next, chain, dispatch, h0, ↓reduceIte, reaction, objects, react]
  split_ifs <;> simp [hsmRootObject, h0]

theorem next_dtsNormalN1 (e : HsmEvent) : next .dtsNormalN1 e =
    if e = hsmeExit then some .dtsNormal
    else if e = dteJoinN2 then some .dtsNormalN2
    else if e = dteJoinN1 then some .dtsNormalN1
    else none := by
  by_cases h0 : e = hsmeNull
  · subst h0; decide
  by_cases h1 : e = dteError
  · subst h1; decide
  by_cases h2 : e = dteMaintain
  · subst h2; decide
  simp only [next, chain, dispatch, h0, h1, h2, ↓reduceIte, reaction, objects, react, or_self]
  split_ifs <;> simp_all [hsmRootObject]

theorem next_dtsNormalN2 (e : HsmEvent) : next .dtsNormalN2 e =
    if e = dteError then some .dtsDamage
    else if e = dteMaintain then some .dtsMaintenance
    else if e = dteJoinN1 then some .dtsNormalN1
    else if e = dteJoinN2 then some .dtsNormalN2
    else none := by
  by_cases h0 : e = hsmeNull
  · subst h0; decide
  by_cases h1 : e = dteJoin
  · subst h1; decide
  simp only [next, chain, dispatch, h0, h1, ↓reduceIte, reaction, objects, react]
  split_ifs <;> simp_all [hsmRootObject]

theorem next_dtsDamage (e : HsmEvent) : next .dtsDamage e =
    if e = dteJoin then some .dtsNormal
    else if e = dteMaintain then some .dtsMaintenance
    else none := by
  by_cases h0 : e = hsmeNull
  · subst h0; decide
  simp only [next, chain, dispatch, h0, ↓reduceIte, reaction, objects, react]
  split_ifs <;> simp [hsmRootObject, h0]

theorem next_dtsMaintenance (e : HsmEvent) : next .dtsMaintenance e =
    if e = dteJoin then some .dtsNormal
    else if e = dteError then some .dtsDamage
    else none := by
  by_cases h0 : e = hsmeNull
  · subst h0; decide
  simp only [next, chain, dispatch, h0, ↓reduceIte, reaction, objects, react]
  split_ifs <;> simp [hsmRootObject, h0]

theorem next_of_down {s t : StateRef} {e : HsmEvent} (hs : s = .dtsDamage ∨ s = .dtsMaintenance)
    (h : next s e = some t) : (t = .dtsDamage ∨ t = .dtsMaintenance) ∨ t = .dtsNormal := by
  rcases hs with rfl | rfl
  · rw [next_dtsDamage] at h
    split_ifs at h <;> cases h <;> simp
  · rw [next_dtsMaintenance] at h
    split_ifs at h <;> cases h <;> simp

theorem next_of_n1 {t : StateRef} {e : HsmEvent} (h : next .dtsNormalN1 e = some t) :
    t = .dtsNormalN1 ∨ t = .dtsNormal ∨ t = .dtsNormalN2 := by
  rw [next_dtsNormalN1] at h
  split_ifs at h <;> cases h <;> simp

/-! ## The recorded state -/

/-- A member whose name the program takes for its key. -/
def namesKey (e : Item) : Bool := sameName jsonKey e

def isNull (e : Item) : Bool :=
  match e.kind with
  | .null => true
  | _ => false

def stateMember (v : CStr) : Item := .mk (.string v) (some jsonKey) []

/-- Members whose first one under the key, if there is one, is not `null`. -/
def FirstNotNull (child : List Item) : Prop := ∀ e, child.find? namesKey = some e → isNull e = false

/-- The members after `Display`: behind a `null` the new member is appended, and the `null` stays in
front of it. -/
def record (v : CStr) (child : List Item) : List Item :=
  if (child.find? namesKey).any isNull then child ++ [stateMember v]
  else upsert namesKey (stateMember v) child

/-- How many members have the key of the program, letter for letter. -/
def keyCount (child : List Item) : ℕ := child.countP fun e => e.string = some jsonKey

/-- The key of a member of a text, as a C string. -/
def keyOf (m : List Chr × Json) : CStr := cstr (decode m.1)

/-- A member of a text whose key the program takes for its own: it is `dt` in any case of
letters. -/
def textNamesKey (m : List Chr × Json) : Bool := (keyOf m).bytes.map tolower = jsonKey.bytes.map tolower

/-- A member of a text whose key is not `dt`. -/
def textIsOther (m : List Chr × Json) : Bool := keyOf m ≠ jsonKey

/-- The members of a text without the one that a recorded state replaces: the first one under the
key, unless its value is `null`. -/
def unrecorded (ms : List (List Chr × Json)) : List (List Chr × Json) :=
  match ms.find? textNamesKey with
  | some (_, .null) => ms
  | _ => ms.eraseP textNamesKey

/-! ## The drawn diagram -/

inductive Box where
  | normal
  | damage
  | maintenance
deriving DecidableEq

/-- The arrows of the state diagram. -/
def Box.step : Box → HsmEvent → Box
  | .normal, e => if e = dteError then .damage else if e = dteMaintain then .maintenance else .normal
  | .damage, e => if e = dteJoin then .normal else if e = dteMaintain then .maintenance else .damage
  | .maintenance, e => if e = dteJoin then .normal else if e = dteError then .damage else .maintenance

def box : StateRef → Box
  | .dtsDamage => .damage
  | .dtsMaintenance => .maintenance
  | _ => .normal

/-- A box, and whether the radio is in trial operation, in which it refuses faults and maintenance:
trial operation begins in the box `normal` with `DTE_JOIN_N1` and ends with `DTE_JOIN_N2` or
`HSME_EXIT`. -/
structure Trial where
  box : Box
  trial : Bool
deriving DecidableEq

namespace Trial

def start : Trial := ⟨.normal, false⟩

def refuses (s : Trial) (e : HsmEvent) : Bool := s.trial && (e = dteError || e = dteMaintain)

def step (s : Trial) (e : HsmEvent) : Trial where
  box := if s.refuses e then s.box else s.box.step e
  trial := if s.trial then !(e = dteJoinN2 || e = hsmeExit) else s.box = .normal && e = dteJoinN1

def heeded (s : Trial) : List HsmEvent → List HsmEvent
  | [] => []
  | e :: es => if s.refuses e then (s.step e).heeded es else e :: (s.step e).heeded es

end Trial

/-! ## Runs -/

/-- `DT_Init`, and then one call of `DT_Run` for each event. -/
def session (mem : Memory) (es : List HsmEvent) : Outcome (Fault RadioFault) RadioWorld Unit :=
  match dtInit mem with
  | .stop f w => .stop f w
  | .ok () w => (Prog.runAll dtRun es).run w

/-- The JSON file after a run of the program in which every write succeeded. -/
def afterRun (file : Option (List UInt8)) (es : List HsmEvent) : Option (List UInt8) :=
  (session (loadMemory file []) es).state.mem.file

/-- The transitions that were completed, each with the state before and the state after. -/
def transitions (trace : List (Obs StateRef)) : List (StateRef × StateRef) :=
  trace.filterMap fun
    | .completed src dst => some (src, dst)
    | _ => none

/-- What a call of `DT_Run` adds to the trace. -/
def newTrace (w : RadioWorld) (e : HsmEvent) : List (Obs StateRef) :=
  ((dtRun e).run w).state.trace.drop w.trace.length

/-- The ENTRY and EXIT that `HSM_Create` and `HSM_Tran` send to a state. -/
def notices (s : StateRef) (trace : List (Obs StateRef)) : List HsmEvent :=
  trace.filterMap fun
    | .notified s' e => if s' = s ∧ (e = hsmeEntry ∨ e = hsmeExit) then some e else none
    | _ => none

/-- The ENTRY and EXIT that the handler of a state is called with, also by `HSM_Run`. -/
def received (s : StateRef) (trace : List (Obs StateRef)) : List HsmEvent :=
  trace.filterMap fun
    | .handled s' e | .notified s' e => if s' = s ∧ (e = hsmeEntry ∨ e = hsmeExit) then some e else none
    | _ => none

def Alternate (es : List HsmEvent) : Prop := (∀ e ∈ es.head?, e = hsmeEntry) ∧ es.IsChain (· ≠ ·)

/-- The states that have no sub-states. -/
def innermost : List StateRef := [.dtsNormalN1, .dtsNormalN2, .dtsDamage, .dtsMaintenance]

/-- `HSM_Run` passes no other event than `e` to a handler, and each of these handlers consumes it or
returns it. -/
def KeepsEvent (w : RadioWorld) (e : HsmEvent) : Prop :=
  ∀ s x, .handled s x ∈ newTrace w e → x = e ∧
    ∀ tran v v' code, (dt.call (dt.state s).handler tran x).run v = .ok code v' →
      code = hsmeNull ∨ code = e

/-- The line of the log that tells a transition. -/
def tranLine (t : StateRef × StateRef) : CStr × CStr := (stateName t.1, stateName t.2)

/-- The events that lead out of DTS_NORMAL_N1, whose handler logs a transition of its own when it is
left. -/
def LeavesN1 (s : StateRef) (e : HsmEvent) : Prop := s = .dtsNormalN1 ∧ (e = hsmeExit ∨ e = dteJoinN2)

instance (s : StateRef) (e : HsmEvent) : Decidable (LeavesN1 s e) :=
  inferInstanceAs (Decidable (s = .dtsNormalN1 ∧ (e = hsmeExit ∨ e = dteJoinN2)))

/-- An event that is ignored, or that takes one transition with a document that can be printed and
logs no other. -/
def LogsOnce (w : RadioWorld) (e : HsmEvent) : Prop :=
  ¬LeavesN1 w.curState e ∧
    ∀ t, next w.curState e = some t → ∃ res, cjsonPrint (displayRoot w.mem.root (stateName t)) = .ok res

/-- The characters in front of the first `E`, without white space. -/
def typed (chars : List UInt8) : List UInt8 :=
  (chars.filter fun c => !isspace c).takeWhile (· ≠ byte 'E')

/-- The document at the end of a round of the command loop. -/
def rootAfter (w : RadioWorld) (input : UInt8) : Option Item :=
  match (command input).bind (next w.curState) with
  | none => w.mem.root
  | some t => displayRoot w.mem.root (stateName t)

/-- `ensure` was never refused a buffer: there was memory, and every printed text stayed below
`INT_MAX`. -/
def BufferSuffices {α : Type} (o : Outcome (Fault RadioFault) RadioWorld α) : Prop :=
  ∀ w, o ≠ .stop (.app (.nullString .bufferRefused)) w

end CppJson
