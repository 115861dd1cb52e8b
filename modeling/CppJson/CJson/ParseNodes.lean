import CppJson.CJson.Nodes
import CppJson.CJson.Parse

/-!
# `cJSON_Parse` on nodes

The parse functions with the nodes that they make and fill in. They return the buffer, or nothing
when the source returns false. A name is stored in `string` at once, and not moved there from
`valuestring`.
-/

namespace CppJson

namespace Nodes

variable {Ptr : Type} [DecidableEq Ptr]

def setKind (p : Option Ptr) (value : Kind) : NodeProg Ptr Unit := do
  let p ← deref p
  Prog.modify fun nodes => { nodes with kind := Function.update nodes.kind p value }

/-- The type of `parse_value`. -/
abbrev ParseValue (Ptr : Type) := Option Ptr → ParseBuffer → NodeProg Ptr (Option ParseBuffer)

/-- What a parse function for scalars stores. -/
def storeKind (item : Option Ptr) : Except Stop (Kind × ParseBuffer) → NodeProg Ptr (Option ParseBuffer)
  | .error _ => return none
  | .ok (kind, b) => do
      setKind item kind
      return some b

def parseNumber (item : Option Ptr) (b : ParseBuffer) : NodeProg Ptr (Option ParseBuffer) :=
  storeKind item ((CppJson.parseNumber b).map fun (n, b) => (.number n, b))

/-! ## Strings -/

variable (A : Allocator Ptr)

/-- `skipped_bytes` of `parse_string`: the escapes in front of the closing quote. -/
def skippedBytes : List UInt8 → ℕ
  | [] => 0
  | c :: cs =>
      if c = byte '"' then 0
      else if c = byte '\\' then
        match cs with
        | [] => 0
        | _ :: cs => skippedBytes cs + 1
      else skippedBytes cs

/-- The memory that `parse_string` asks for: from the opening quote to the byte in front of the
closing one, less the escapes, and a NUL. -/
def stringSize (b : ParseBuffer) : ℕ :=
  (scanString (b.rest.drop 1)).getD 0 + 1 - skippedBytes (b.rest.drop 1) + 1

/-- The text that `parse_string` reads, in memory of its own. Where it will not be read to its end
it makes no difference whether there is memory for it. -/
def allocateString (b : ParseBuffer) : NodeProg Ptr (Option (CStr × ParseBuffer)) :=
  match CppJson.parseString b with
  | .error .overread => Prog.stop .overread
  | .error _ => return none
  | .ok (output, b') => do
      let nodes ← Prog.get
      if A.mallocString nodes (stringSize b) then return some (output, b') else return none

def parseString (item : Option Ptr) (b : ParseBuffer) : NodeProg Ptr (Option ParseBuffer) := do
  let r ← allocateString A b
  match r with
  | none => return none
  | some (s, b) => do
      setKind item (.string s)
      return some b

/-- The name of a member. -/
def parseName (item : Option Ptr) (b : ParseBuffer) : NodeProg Ptr (Option ParseBuffer) := do
  let r ← allocateString A b
  match r with
  | none => return none
  | some (s, b) => do
      setString item (some s)
      return some b

/-! ## Arrays and objects -/

/-- Attaches the next item to the list: its new head. -/
def attach (head currentItem newItem : Option Ptr) : NodeProg Ptr (Option Ptr) := do
  if head = none then return newItem
  setNext currentItem newItem
  setPrev newItem currentItem
  return head

/-- The `do … while` loops of `parse_array` and `parse_object`, from the byte in front of a child:
the head of the list and, unless the loop fails, its last item and the buffer. -/
def parseChildren (parseChild : ParseValue Ptr) :
    ℕ → Option Ptr → Option Ptr → ParseBuffer →
      NodeProg Ptr (Option Ptr × Option (Option Ptr × ParseBuffer))
  | 0, _, _, _ => Prog.stop .outOfFuel
  | n + 1, head, currentItem, b => do
      let node ← A.allocate
      let newItem ← cjsonNewItem node
      if newItem = none then return (head, none)
      let head ← attach head currentItem newItem
      let b ← parseChild newItem b
      match b with
      | none => return (head, none)
      | some b =>
          let b := bufferSkipWhitespace b
          if b.peek = some (byte ',') then parseChildren parseChild n head newItem b
          else return (head, some (newItem, b))

def parseElement (parseValue : ParseValue Ptr) : ParseValue Ptr := fun newItem b =>
  parseValue newItem (bufferSkipWhitespace (b.advance 1))

def parseMember (parseValue : ParseValue Ptr) : ParseValue Ptr := fun newItem b => do
  let b ← parseName A newItem (bufferSkipWhitespace (b.advance 1))
  match b with
  | none => return none
  | some b =>
      let b := bufferSkipWhitespace b
      if b.peek = some (byte ':') then parseValue newItem (bufferSkipWhitespace (b.advance 1))
        else return none

/-- The label `success`. -/
def closeList (kind : Kind) (item head currentItem : Option Ptr) (b : ParseBuffer) :
    NodeProg Ptr (Option ParseBuffer) := do
  if head ≠ none then setPrev head currentItem
  setKind item kind
  setChild item head
  return some (b.leave.advance 1)

/-- The label `fail`. -/
def dropList (fuel : ℕ) (head : Option Ptr) : NodeProg Ptr (Option ParseBuffer) := do
  if head ≠ none then cjsonDelete fuel head
  return none

/-- `parse_array` and `parse_object` -/
def parseList (fuel : ℕ) (kind : Kind) (opening closing : UInt8) (parseChild : ParseValue Ptr) :
    ParseValue Ptr :=
  fun item b => do
    if nestingLimit ≤ b.depth then return none
    let b := b.enter
    if b.peek ≠ some opening then return none
    let b := bufferSkipWhitespace (b.advance 1)
    if b.peek = some closing then closeList kind item none none b
    else if b.peek = none then return none
    else
      let (head, last) ← parseChildren A parseChild (b.content.length + 1) none none b.stepBack
      match last with
      | none => dropList fuel head
      | some (currentItem, b) =>
          if b.peek = some closing then closeList kind item head currentItem b else dropList fuel head

def parseArray (parseValue : ParseValue Ptr) (fuel : ℕ) : ParseValue Ptr :=
  parseList A fuel .array (byte '[') (byte ']') (parseElement parseValue)

def parseObject (parseValue : ParseValue Ptr) (fuel : ℕ) : ParseValue Ptr :=
  parseList A fuel .object (byte '{') (byte '}') (parseMember A parseValue)

/-- `parse_value`, with fuel for the calls of `cJSON_Delete`. -/
def parseValue (fuel : ℕ) : ℕ → ParseValue Ptr
  | 0 => fun _ _ => Prog.stop .outOfFuel
  | n + 1 => fun item b =>
      if ascii "null" <+: b.rest then storeKind item (.ok (.null, b.advance 4))
      else if ascii "false" <+: b.rest then storeKind item (.ok (.false, b.advance 5))
      else if ascii "true" <+: b.rest then storeKind item (.ok (.true, b.advance 4))
      else
        match b.peek with
        | none => return none
        | some c =>
            if c = byte '"' then parseString A item b
            else if c = byte '-' ∨ isDigit c then parseNumber item b
            else if c = byte '[' then parseArray A (parseValue fuel n) fuel item b
            else if c = byte '{' then parseObject A (parseValue fuel n) fuel item b
            else return none

/-- `cJSON_ParseWithLengthOpts` behind the call of `parse_value`. -/
def endParse (fuel : ℕ) (p : Ptr) (requireNullTerminated : Bool) :
    Option ParseBuffer → NodeProg Ptr (Option (Ptr × ℕ))
  | none => do
      cjsonDelete fuel (some p)
      return none
  | some b =>
      let b := if requireNullTerminated then bufferSkipWhitespace b else b
      if requireNullTerminated ∧ b.peek ≠ some 0 then do
        cjsonDelete fuel (some p)
        return none
      else return some (p, b.offset)

/-- `cJSON_ParseWithLengthOpts`: the root, and the offset that `return_parse_end` is set to. -/
def cjsonParseWithLengthOpts (fuel : ℕ) (value : List UInt8) (requireNullTerminated : Bool) :
    NodeProg Ptr (Option (Ptr × ℕ)) := do
  if value = [] then return none
  let node ← A.allocate
  let item ← cjsonNewItem node
  match item with
  | none => return none
  | some p =>
      let b ← parseValue A fuel (nestingLimit + 1) (some p)
        (bufferSkipWhitespace (skipUtf8Bom ⟨value, 0, 0⟩))
      endParse fuel p requireNullTerminated b

def cjsonParse (fuel : ℕ) (value : CStr) : NodeProg Ptr (Option Ptr) := do
  let r ← cjsonParseWithLengthOpts A fuel (value.bytes ++ [0]) false
  return r.map Prod.fst

end Nodes

end CppJson
