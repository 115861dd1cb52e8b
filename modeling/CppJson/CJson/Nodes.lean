import CppJson.CJson.Object
import CppJson.Lib.Prog

/-!
# cJSON nodes in memory

The functions of `cJSON.c` that follow and change the pointers `next`, `prev` and `child`. `Ptr` is
the type of the addresses of nodes and NULL is `none`; memory is kept field by field. Using NULL or
a node that is not allocated is a fault. As in `Item`, the two flags are left out, and strings are
values.
-/

namespace CppJson

structure Nodes (Ptr : Type) where
  allocated : Ptr → Bool
  next : Ptr → Option Ptr
  prev : Ptr → Option Ptr
  child : Ptr → Option Ptr
  kind : Ptr → Kind
  string : Ptr → Option CStr

inductive NodeFault where
  | null
  | notAllocated
  /-- The byte behind the text is read. -/
  | overread
  /-- A loop does not end. -/
  | outOfFuel
deriving DecidableEq

abbrev NodeProg (Ptr : Type) := Prog NodeFault (Nodes Ptr)

namespace Nodes

variable {Ptr : Type}

def empty : Nodes Ptr where
  allocated _ := false
  next _ := none
  prev _ := none
  child _ := none
  kind _ := .invalid
  string _ := none

/-! ## Fields -/

/-- The node that a pointer points to. -/
def deref (p : Option Ptr) : NodeProg Ptr Ptr := do
  let nodes ← Prog.get
  match p with
  | none => Prog.stop .null
  | some p => if nodes.allocated p then return p else Prog.stop .notAllocated

def load {α : Type} (field : Nodes Ptr → Ptr → α) (p : Option Ptr) : NodeProg Ptr α := do
  let p ← deref p
  let nodes ← Prog.get
  return field nodes p

variable [DecidableEq Ptr]

def setNext (p value : Option Ptr) : NodeProg Ptr Unit := do
  let p ← deref p
  Prog.modify fun nodes => { nodes with next := Function.update nodes.next p value }

def setPrev (p value : Option Ptr) : NodeProg Ptr Unit := do
  let p ← deref p
  Prog.modify fun nodes => { nodes with prev := Function.update nodes.prev p value }

def setChild (p value : Option Ptr) : NodeProg Ptr Unit := do
  let p ← deref p
  Prog.modify fun nodes => { nodes with child := Function.update nodes.child p value }

def setString (p : Option Ptr) (value : Option CStr) : NodeProg Ptr Unit := do
  let p ← deref p
  Prog.modify fun nodes => { nodes with string := Function.update nodes.string p value }

/-! ## Nodes -/

/-- `cJSON_New_Item`, where the allocator has returned `node`. -/
def cjsonNewItem (node : Option Ptr) : NodeProg Ptr (Option Ptr) := do
  match node with
  | none => return none
  | some p =>
      Prog.modify fun nodes =>
        { allocated := Function.update nodes.allocated p true
          next := Function.update nodes.next p none
          prev := Function.update nodes.prev p none
          child := Function.update nodes.child p none
          kind := Function.update nodes.kind p .invalid
          string := Function.update nodes.string p none }
      return some p

/-- The `cJSON_Create…` functions, which set the type of a new node and the payload that goes with
it. -/
def cjsonCreate (node : Option Ptr) (kind : Kind) : NodeProg Ptr (Option Ptr) := do
  let item ← cjsonNewItem node
  if item ≠ none then
    let p ← deref item
    Prog.modify fun nodes => { nodes with kind := Function.update nodes.kind p kind }
  return item

def deallocate (p : Option Ptr) : NodeProg Ptr Unit := do
  let p ← deref p
  Prog.modify fun nodes => { nodes with allocated := Function.update nodes.allocated p false }

/-- `cJSON_Delete`: every round of the loop and every call uses fuel. -/
def cjsonDelete : ℕ → Option Ptr → NodeProg Ptr Unit
  | 0, _ => Prog.stop .outOfFuel
  | _ + 1, none => pure ()
  | n + 1, item => do
      let next ← load Nodes.next item
      let child ← load Nodes.child item
      if child ≠ none then cjsonDelete n child
      deallocate item
      cjsonDelete n next

/-! ## Looking up -/

/-- The loop of `cJSON_GetArraySize`. -/
def getArraySizeLoop : ℕ → Option Ptr → ℕ → NodeProg Ptr ℕ
  | 0, _, _ => Prog.stop .outOfFuel
  | _ + 1, none, size => return size
  | n + 1, child, size => do
      let child ← load Nodes.next child
      getArraySizeLoop n child (size + 1)

/-- `cJSON_GetArraySize`, with the conversion of a `size_t` to `int`. -/
def cjsonGetArraySize (fuel : ℕ) (array : Option Ptr) : NodeProg Ptr ℤ := do
  if array = none then return 0
  let child ← load Nodes.child array
  let size ← getArraySizeLoop fuel child 0
  return Int.bmod size (2 ^ 32)

/-- The loop of `get_array_item`. -/
def getArrayItemLoop : ℕ → Option Ptr → NodeProg Ptr (Option Ptr)
  | _, none => return none
  | 0, currentChild => return currentChild
  | index + 1, currentChild => do
      let currentChild ← load Nodes.next currentChild
      getArrayItemLoop index currentChild

def getArrayItem (array : Option Ptr) (index : ℕ) : NodeProg Ptr (Option Ptr) := do
  if array = none then return none
  let currentChild ← load Nodes.child array
  getArrayItemLoop index currentChild

def cjsonGetArrayItem (array : Option Ptr) (index : ℤ) : NodeProg Ptr (Option Ptr) := do
  if index < 0 then return none
  getArrayItem array index.toNat

/-- The loops of `get_object_item`. -/
def getObjectItemLoop (name : CStr) (caseSensitive : Bool) : ℕ → Option Ptr → NodeProg Ptr (Option Ptr)
  | 0, _ => Prog.stop .outOfFuel
  | _ + 1, none => return none
  | n + 1, currentElement => do
      let string ← load Nodes.string currentElement
      let goOn :=
        if caseSensitive then string ≠ none ∧ string ≠ some name
          else caseInsensitiveStrcmp (some name) string ≠ 0
      if goOn then
        let currentElement ← load Nodes.next currentElement
        getObjectItemLoop name caseSensitive n currentElement
      else return currentElement

/-- Whether those loops stop at a member. -/
def stopsAt (string : Ptr → Option CStr) (name : CStr) (caseSensitive : Bool) (a : Ptr) : Bool :=
  if caseSensitive then string a = none ∨ string a = some name
    else caseInsensitiveStrcmp (some name) (string a) = 0

def getObjectItem (fuel : ℕ) (object : Option Ptr) (name : Option CStr) (caseSensitive : Bool) :
    NodeProg Ptr (Option Ptr) := do
  if object = none then return none
  let some name := name | return none
  let currentElement ← load Nodes.child object
  let currentElement ← getObjectItemLoop name caseSensitive fuel currentElement
  if currentElement = none then return none
  let string ← load Nodes.string currentElement
  if string = none then return none
  return currentElement

/-! ## Adding -/

def suffixObject (prev item : Option Ptr) : NodeProg Ptr Unit := do
  setNext prev item
  setPrev item prev

def addItemToArray (array item : Option Ptr) : NodeProg Ptr Bool := do
  if item = none ∨ array = none ∨ array = item then return false
  let child ← load Nodes.child array
  if child = none then
    setChild array item
    setPrev item item
    setNext item none
    return true
  let last ← load Nodes.prev child
  if last = none then return true
  suffixObject last item
  let child ← load Nodes.child array
  setPrev child item
  return true

def addItemToObject (object : Option Ptr) (string : Option CStr) (item : Option Ptr) :
    NodeProg Ptr Bool := do
  if object = none ∨ string = none ∨ item = none ∨ object = item then return false
  setString item string
  addItemToArray object item

def cjsonInsertItemInArray (array : Option Ptr) (which : ℤ) (newitem : Option Ptr) :
    NodeProg Ptr Bool := do
  if which < 0 then return false
  let afterInserted ← getArrayItem array which.toNat
  if afterInserted = none then addItemToArray array newitem
  else
    setNext newitem afterInserted
    let prev ← load Nodes.prev afterInserted
    setPrev newitem prev
    setPrev afterInserted newitem
    let child ← load Nodes.child array
    if afterInserted = child then setChild array newitem
    else
      let prev ← load Nodes.prev newitem
      setNext prev newitem
    return true

/-! ## Taking out -/

def cjsonDetachItemViaPointer (parent item : Option Ptr) : NodeProg Ptr (Option Ptr) := do
  if parent = none ∨ item = none then return none
  let child ← load Nodes.child parent
  if item ≠ child then
    let prev ← load Nodes.prev item
    let next ← load Nodes.next item
    setNext prev next
  let next ← load Nodes.next item
  if next ≠ none then
    let prev ← load Nodes.prev item
    setPrev next prev
  if item = child then setChild parent next
  else if next = none then
    let prev ← load Nodes.prev item
    setPrev child prev
  setPrev item none
  setNext item none
  return item

def cjsonDetachItemFromArray (array : Option Ptr) (which : ℤ) : NodeProg Ptr (Option Ptr) := do
  if which < 0 then return none
  let item ← getArrayItem array which.toNat
  cjsonDetachItemViaPointer array item

/-- `cJSON_DetachItemFromObject` and its case-sensitive form. -/
def detachItemFromObject (fuel : ℕ) (object : Option Ptr) (string : Option CStr)
    (caseSensitive : Bool) :
    NodeProg Ptr (Option Ptr) := do
  let toDetach ← getObjectItem fuel object string caseSensitive
  cjsonDetachItemViaPointer object toDetach

def cjsonDeleteItemFromArray (fuel : ℕ) (array : Option Ptr) (which : ℤ) : NodeProg Ptr Unit := do
  let item ← cjsonDetachItemFromArray array which
  cjsonDelete fuel item

/-- `cJSON_DeleteItemFromObject` and its case-sensitive form. -/
def deleteItemFromObject (fuel : ℕ) (object : Option Ptr) (string : Option CStr)
    (caseSensitive : Bool) :
    NodeProg Ptr Unit := do
  let item ← detachItemFromObject fuel object string caseSensitive
  cjsonDelete fuel item

/-! ## Replacing -/

def cjsonReplaceItemViaPointer (fuel : ℕ) (parent item replacement : Option Ptr) :
    NodeProg Ptr Bool := do
  if parent = none ∨ replacement = none ∨ item = none then return false
  if replacement = item then return true
  let next ← load Nodes.next item
  setNext replacement next
  let prev ← load Nodes.prev item
  setPrev replacement prev
  let next ← load Nodes.next replacement
  if next ≠ none then setPrev next replacement
  let child ← load Nodes.child parent
  if child = item then
    let prev ← load Nodes.prev child
    if prev = child then setPrev replacement replacement
    setChild parent replacement
  else
    let prev ← load Nodes.prev replacement
    if prev ≠ none then setNext prev replacement
    let next ← load Nodes.next replacement
    if next = none then setPrev child replacement
  setNext item none
  setPrev item none
  cjsonDelete fuel item
  return true

def cjsonReplaceItemInArray (fuel : ℕ) (array : Option Ptr) (which : ℤ) (newitem : Option Ptr) :
    NodeProg Ptr Bool := do
  if which < 0 then return false
  let item ← getArrayItem array which.toNat
  cjsonReplaceItemViaPointer fuel array item newitem

def replaceItemInObject (fuel : ℕ) (object : Option Ptr) (string : Option CStr)
    (replacement : Option Ptr) (caseSensitive : Bool) : NodeProg Ptr Bool := do
  if replacement = none ∨ string = none then return false
  setString replacement string
  let item ← getObjectItem fuel object string caseSensitive
  cjsonReplaceItemViaPointer fuel object item replacement

/-! ## With an allocator -/

/-- What `malloc` returns for a node: NULL, or the address of a node that is not allocated. And
whether it finds room for a string that is parsed; `cJSON_strdup` always finds it. -/
structure Allocator (Ptr : Type) where
  malloc : Nodes Ptr → Option Ptr
  fresh : ∀ nodes x, malloc nodes = some x → nodes.allocated x = false
  mallocString : Nodes Ptr → (size : ℕ) → Bool

def Allocator.allocate {Ptr : Type} (A : Allocator Ptr) : NodeProg Ptr (Option Ptr) := do
  let nodes ← Prog.get
  return A.malloc nodes

/-- `malloc` finds a place for a node while fewer than `m` are allocated, and for every string. -/
structure Allocator.Room {Ptr : Type} (A : Allocator Ptr) (m : ℕ) : Prop where
  node : ∀ (nodes : Nodes Ptr) (l : List Ptr), (∀ a, nodes.allocated a = true → a ∈ l) → l.length < m →
    A.malloc nodes ≠ none
  string : ∀ nodes size, A.mallocString nodes size = true

variable (A : Allocator Ptr)

def cjsonCreateString (string : CStr) : NodeProg Ptr (Option Ptr) := do
  let node ← A.allocate
  cjsonCreate node (.string string)

def cjsonAddStringToObject (fuel : ℕ) (object : Option Ptr) (name string : CStr) :
    NodeProg Ptr (Option Ptr) := do
  let stringItem ← cjsonCreateString A string
  let added ← addItemToObject object (some name) stringItem
  if added then return stringItem
  cjsonDelete fuel stringItem
  return none

end Nodes

end CppJson
