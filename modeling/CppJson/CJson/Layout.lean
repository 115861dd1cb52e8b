import CppJson.CJson.Nodes
import CppJson.Lib.Rose
import CppJson.Lib.Siblings

/-!
# Trees laid out in memory

Where the nodes of a tree are is a tree of addresses. Memory lays it out (`Laid`) when the pointers
are those that cJSON keeps, and then holds one item (`item`).
-/

namespace CppJson

mutual
/-- How many nodes a tree has. -/
def Item.size : Item → ℕ
  | .mk _ _ child => 1 + sizes child

def sizes : List Item → ℕ
  | [] => 0
  | item :: items => item.size + sizes items
end

namespace Nodes

variable {Ptr : Type}

mutual
/-- The pointers below the root are those of the tree. -/
def Laid (nodes : Nodes Ptr) : Rose Ptr → Prop
  | .node p ts => nodes.allocated p = true ∧ nodes.child p = (ts.map Rose.root).head? ∧
      Siblings nodes.next nodes.prev (ts.map Rose.root) ∧ LaidAll nodes ts

def LaidAll (nodes : Nodes Ptr) : List (Rose Ptr) → Prop
  | [] => True
  | t :: ts => Laid nodes t ∧ LaidAll nodes ts
end

mutual
/-- The item whose nodes are those of the tree. -/
def item (nodes : Nodes Ptr) : Rose Ptr → Item
  | .node p ts => .mk (nodes.kind p) (nodes.string p) (items nodes ts)

def items (nodes : Nodes Ptr) : List (Rose Ptr) → List Item
  | [] => []
  | t :: ts => item nodes t :: items nodes ts
end

/-- All but the links of a node is the same. -/
structure SameNode (nodes nodes' : Nodes Ptr) (a : Ptr) : Prop where
  allocated : nodes'.allocated a = nodes.allocated a
  child : nodes'.child a = nodes.child a
  kind : nodes'.kind a = nodes.kind a
  string : nodes'.string a = nodes.string a

structure SameAt (nodes nodes' : Nodes Ptr) (a : Ptr) : Prop extends SameNode nodes nodes' a where
  next : nodes'.next a = nodes.next a
  prev : nodes'.prev a = nodes.prev a

/-- The nodes of a list are freed. -/
def release [DecidableEq Ptr] (nodes : Nodes Ptr) (l : List Ptr) : Nodes Ptr :=
  { nodes with allocated := fun a => nodes.allocated a && !decide (a ∈ l) }

end Nodes

end CppJson
