import CppJson.CJson.Nodes
import CppJson.Lib.Forest

/-!
# The trees that an application builds

What the functions on nodes are for: each node has an ordered list of children, a name and a value
(`Shape`), and a call changes these as its name says. Nodes that a call puts into a tree must not be
in one (`Command.Legal`), as the header of cJSON asks of its callers.
-/

namespace CppJson

variable {Ptr : Type}

structure Shape (Ptr : Type) where
  live : Ptr → Prop
  children : Ptr → List Ptr
  kind : Ptr → Kind
  name : Ptr → Option CStr

namespace Shape

def empty : Shape Ptr where
  live _ := False
  children _ := []
  kind _ := .invalid
  name _ := none

mutual
/-- The tree under a node. -/
inductive Tree (s : Shape Ptr) : Ptr → Item → Prop where
  | mk {p items} : Trees s (s.children p) items → Tree s p (.mk (s.kind p) (s.name p) items)

inductive Trees (s : Shape Ptr) : List Ptr → List Item → Prop where
  | nil : Trees s [] []
  | cons {p ps item items} : Tree s p item → Trees s ps items → Trees s (p :: ps) (item :: items)
end

/-- Memory has the nodes of one tree and no others. -/
structure Only (s : Shape Ptr) (p : Ptr) (item : Item) : Prop where
  tree : Tree s p item
  live : ∀ a, s.live a ↔ Within s.children a p

/-- The member that a name finds. -/
def member (s : Shape Ptr) (p : Ptr) (name : CStr) (caseSensitive : Bool) : Option Ptr :=
  ((s.children p).find? (Nodes.stopsAt s.name name caseSensitive)).filter fun a => s.name a ≠ none

/-- The child at an index. -/
def index (s : Shape Ptr) (p : Ptr) (which : ℤ) : Option Ptr :=
  if which < 0 then none else (s.children p)[which.toNat]?

/-- A node that may be put under `p`. -/
structure Addable (s : Shape Ptr) (p x : Ptr) : Prop where
  live : s.live x
  root : ∀ q, x ∉ s.children q
  above : ¬Within s.children p x

noncomputable def delete (s : Shape Ptr) (x : Ptr) : Shape Ptr :=
  { s with
    live := fun a => s.live a ∧ ¬Within s.children a x
    children := prune s.children x }

variable [DecidableEq Ptr]

def create (s : Shape Ptr) (x : Ptr) (kind : Kind) : Shape Ptr where
  live a := a = x ∨ s.live a
  children := Function.update s.children x []
  kind := Function.update s.kind x kind
  name := Function.update s.name x none

def rename (s : Shape Ptr) (x : Ptr) (name : CStr) : Shape Ptr :=
  { s with name := Function.update s.name x (some name) }

def setChildren (s : Shape Ptr) (p : Ptr) (l : List Ptr) : Shape Ptr :=
  { s with children := Function.update s.children p l }

def detach (s : Shape Ptr) (p y : Ptr) : Shape Ptr := s.setChildren p ((s.children p).erase y)

noncomputable def replace (s : Shape Ptr) (p y x : Ptr) : Shape Ptr :=
  (s.setChildren p ((s.children p).map fun a => if a = y then x else a)).delete y

end Shape

/-- A call, on nodes that are not NULL. -/
inductive Command (Ptr : Type) where
  | create (x : Ptr) (kind : Kind)
  | getArraySize (p : Ptr)
  | getArrayItem (p : Ptr) (which : ℤ)
  | getObjectItem (p : Ptr) (name : CStr) (caseSensitive : Bool)
  | addItemToArray (p x : Ptr)
  | addItemToObject (p : Ptr) (name : CStr) (x : Ptr)
  | insertItemInArray (p : Ptr) (which : ℤ) (x : Ptr)
  | detachItemViaPointer (p y : Ptr)
  | detachItemFromArray (p : Ptr) (which : ℤ)
  | detachItemFromObject (p : Ptr) (name : CStr) (caseSensitive : Bool)
  | replaceItemViaPointer (p y x : Ptr)
  | replaceItemInArray (p : Ptr) (which : ℤ) (x : Ptr)
  | replaceItemInObject (p : Ptr) (name : CStr) (x : Ptr) (caseSensitive : Bool)
  | deleteItemFromArray (p : Ptr) (which : ℤ)
  | deleteItemFromObject (p : Ptr) (name : CStr) (caseSensitive : Bool)
  | delete (x : Ptr)

/-- What a call returns. -/
inductive Answer (Ptr : Type) where
  | nothing
  | bool (b : Bool)
  | node (p : Option Ptr)
  | int (n : ℤ)

namespace Command

def Legal (s : Shape Ptr) : Command Ptr → Prop
  | create x _ => ¬s.live x
  | getArraySize p | getArrayItem p _ | getObjectItem p _ _ => s.live p
  | addItemToArray p x | addItemToObject p _ x | insertItemInArray p _ x | replaceItemInArray p _ x
  | replaceItemInObject p _ x _ => s.live p ∧ s.Addable p x
  | detachItemViaPointer p y => y ∈ s.children p
  | detachItemFromArray p _ | detachItemFromObject p _ _ | deleteItemFromArray p _
  | deleteItemFromObject p _ _ => s.live p
  | replaceItemViaPointer p y x => y ∈ s.children p ∧ s.Addable p x
  | delete x => s.live x ∧ ∀ q, x ∉ s.children q

variable [DecidableEq Ptr]

noncomputable def apply (s : Shape Ptr) : Command Ptr → Shape Ptr
  | create x kind => s.create x kind
  | getArraySize _ | getArrayItem _ _ | getObjectItem _ _ _ => s
  | addItemToArray p x => s.setChildren p (s.children p ++ [x])
  | addItemToObject p name x => (s.rename x name).setChildren p (s.children p ++ [x])
  | insertItemInArray p which x =>
      if which < 0 then s
      else s.setChildren p ((s.children p).take which.toNat ++ x :: (s.children p).drop which.toNat)
  | detachItemViaPointer p y => s.detach p y
  | detachItemFromArray p which => (s.index p which).elim s fun y => s.detach p y
  | detachItemFromObject p name caseSensitive =>
      (s.member p name caseSensitive).elim s fun y => s.detach p y
  | replaceItemViaPointer p y x => s.replace p y x
  | replaceItemInArray p which x => (s.index p which).elim s fun y => s.replace p y x
  | replaceItemInObject p name x caseSensitive =>
      (s.member p name caseSensitive).elim (s.rename x name) fun y => (s.rename x name).replace p y x
  | deleteItemFromArray p which => (s.index p which).elim s fun y => (s.detach p y).delete y
  | deleteItemFromObject p name caseSensitive =>
      (s.member p name caseSensitive).elim s fun y => (s.detach p y).delete y
  | delete x => s.delete x

omit [DecidableEq Ptr] in
def answer (s : Shape Ptr) : Command Ptr → Answer Ptr
  | create x _ => .node (some x)
  | getArraySize p => .int (Int.bmod (s.children p).length (2 ^ 32))
  | getArrayItem p which => .node (s.index p which)
  | getObjectItem p name caseSensitive => .node (s.member p name caseSensitive)
  | addItemToArray _ _ | addItemToObject _ _ _ => .bool true
  | insertItemInArray _ which _ => .bool (decide (0 ≤ which))
  | detachItemViaPointer _ y => .node (some y)
  | detachItemFromArray p which => .node (s.index p which)
  | detachItemFromObject p name caseSensitive => .node (s.member p name caseSensitive)
  | replaceItemViaPointer _ _ _ => .bool true
  | replaceItemInArray p which _ => .bool (s.index p which).isSome
  | replaceItemInObject p name _ caseSensitive => .bool (s.member p name caseSensitive).isSome
  | deleteItemFromArray _ _ | deleteItemFromObject _ _ _ | delete _ => .nothing

/-- Every call is made on nodes that it may be made on. -/
def AllLegal (s : Shape Ptr) : List (Command Ptr) → Prop
  | [] => True
  | c :: cs => c.Legal s ∧ AllLegal (c.apply s) cs

noncomputable def applyAll (s : Shape Ptr) (cs : List (Command Ptr)) : Shape Ptr := cs.foldl apply s

noncomputable def answers (s : Shape Ptr) : List (Command Ptr) → List (Answer Ptr)
  | [] => []
  | c :: cs => c.answer s :: answers (c.apply s) cs

/-- The call itself. -/
def exec (fuel : ℕ) : Command Ptr → NodeProg Ptr (Answer Ptr)
  | create x kind => return .node (← Nodes.cjsonCreate (some x) kind)
  | getArraySize p => return .int (← Nodes.cjsonGetArraySize fuel (some p))
  | getArrayItem p which => return .node (← Nodes.cjsonGetArrayItem (some p) which)
  | getObjectItem p name caseSensitive =>
      return .node (← Nodes.getObjectItem fuel (some p) (some name) caseSensitive)
  | addItemToArray p x => return .bool (← Nodes.addItemToArray (some p) (some x))
  | addItemToObject p name x => return .bool (← Nodes.addItemToObject (some p) (some name) (some x))
  | insertItemInArray p which x => return .bool (← Nodes.cjsonInsertItemInArray (some p) which (some x))
  | detachItemViaPointer p y => return .node (← Nodes.cjsonDetachItemViaPointer (some p) (some y))
  | detachItemFromArray p which => return .node (← Nodes.cjsonDetachItemFromArray (some p) which)
  | detachItemFromObject p name caseSensitive =>
      return .node (← Nodes.detachItemFromObject fuel (some p) (some name) caseSensitive)
  | replaceItemViaPointer p y x =>
      return .bool (← Nodes.cjsonReplaceItemViaPointer fuel (some p) (some y) (some x))
  | replaceItemInArray p which x =>
      return .bool (← Nodes.cjsonReplaceItemInArray fuel (some p) which (some x))
  | replaceItemInObject p name x caseSensitive =>
      return .bool (← Nodes.replaceItemInObject fuel (some p) (some name) (some x) caseSensitive)
  | deleteItemFromArray p which => do
      Nodes.cjsonDeleteItemFromArray fuel (some p) which
      return .nothing
  | deleteItemFromObject p name caseSensitive => do
      Nodes.deleteItemFromObject fuel (some p) (some name) caseSensitive
      return .nothing
  | delete x => do
      Nodes.cjsonDelete fuel (some x)
      return .nothing

end Command

end CppJson
