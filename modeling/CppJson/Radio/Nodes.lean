import CppJson.CJson.ParseNodes
import CppJson.Radio.Program

/-!
# `Display` on the nodes of the document

What `Display` does to the memory that holds the document, down to the pointers.
-/

namespace CppJson

open Nodes

variable {Ptr : Type} [DecidableEq Ptr] (A : Allocator Ptr) (fuel : ℕ) (jsonRoot : Option Ptr)

/-- `json_key == nullptr || json_key->type == cJSON_NULL` -/
def missingOrNull (jsonKeyItem : Option Ptr) : NodeProg Ptr Bool := do
  if jsonKeyItem = none then return true
  let type ← load Nodes.kind jsonKeyItem
  match type with
  | .null => return true
  | _ => return false

/-- The changes that `Display` makes to the document. -/
def displayNodes (jsonValue : CStr) : NodeProg Ptr Unit := do
  let jsonKeyItem ← Nodes.getObjectItem fuel jsonRoot (some jsonKey) false
  let add ← missingOrNull jsonKeyItem
  if add then
    let _ ← Nodes.cjsonAddStringToObject A fuel jsonRoot jsonKey jsonValue
  else
    let newitem ← Nodes.cjsonCreateString A jsonValue
    let _ ← Nodes.replaceItemInObject fuel jsonRoot (some jsonKey) newitem false

/-- One call of `Display` after the other. -/
def displayAllNodes (jsonValues : List CStr) : NodeProg Ptr Unit :=
  Prog.runAll (displayNodes A fuel jsonRoot) jsonValues

/-- What `main` does to the nodes: the file is parsed, then come the calls of `Display`. -/
def documentNodes (text : List UInt8) (jsonValues : List CStr) : NodeProg Ptr (Option Ptr) := do
  let cjsonRoot ← Nodes.cjsonParse A fuel (cstr text)
  displayAllNodes A fuel cjsonRoot jsonValues
  return cjsonRoot

end CppJson
