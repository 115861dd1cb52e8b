import CppJson.CJson.Item

/-!
# `cJSON_Print`

`malloc` and `realloc` always succeed; `ensure` still refuses a buffer of more than `INT_MAX` bytes.
-/

namespace CppJson

/-- Why a print function returns false: `ensure` refused the buffer, or there is no text for the
node. -/
inductive PrintFail where
  | bufferRefused
  | notPrintable
deriving DecidableEq

/-- `printbuffer`: `buffer` holds what was written, up to the terminating NUL. -/
structure PrintBuffer where
  buffer : List UInt8
  length : ℕ
  offset : ℕ
  depth : ℕ
  noalloc : Bool
  format : Bool

/-- `ensure`: room for `needed` more bytes and a NUL. -/
def ensure (p : PrintBuffer) (needed : ℕ) : Except PrintFail PrintBuffer :=
  if 0 < p.length ∧ p.length ≤ p.offset then .error .bufferRefused
  else if intMax < needed then .error .bufferRefused
  else
    let needed := needed + p.offset + 1
    if needed ≤ p.length then .ok p
    else if p.noalloc then .error .bufferRefused
    else if intMax / 2 < needed then
      if needed ≤ intMax then .ok { p with length := intMax } else .error .bufferRefused
    else .ok { p with length := needed * 2 }

namespace PrintBuffer

/-- Text and a NUL stored at `buffer + offset`. -/
def write (p : PrintBuffer) (text : List UInt8) : PrintBuffer :=
  { p with buffer := p.buffer.take p.offset ++ text }

/-- `write` followed by `offset += length`. -/
def put (p : PrintBuffer) (text : List UInt8) : PrintBuffer :=
  { p.write text with offset := p.offset + text.length }

def updateOffset (p : PrintBuffer) : PrintBuffer :=
  { p with offset := p.offset + ((p.buffer.drop p.offset).takeWhile (· ≠ 0)).length }

def enter (p : PrintBuffer) : PrintBuffer := { p with depth := p.depth + 1 }

def leave (p : PrintBuffer) : PrintBuffer := { p with depth := p.depth - 1 }

end PrintBuffer

/-! ## Scalars -/

/-- The branches of `print_value` for `null`, `false` and `true`. -/
def printLiteral (text : List UInt8) (p : PrintBuffer) : Except PrintFail PrintBuffer := do
  let p ← ensure p (text.length + 1)
  return p.write text

/-- The text that `print_number` composes in `number_buffer`. -/
def numberText (n : Number) : List UInt8 :=
  match n.valuedouble with
  | .infinite _ => ascii "null"
  | .finite d =>
      if d.val = n.valueint then sprintfD n.valueint
      else
        let text := sprintfG 15 d
        let (test, afterEnd) := strtod text
        -- `sscanf` failed, or the original double was not recovered
        if afterEnd.length = text.length ∨ !compareDouble test d then sprintfG 17 d else text

def printNumber (n : Number) (p : PrintBuffer) : Except PrintFail PrintBuffer := do
  let text := numberText n
  if 25 < text.length then throw .notPrintable
  let p ← ensure p (text.length + 1)
  return p.put text

def escapeCharacters (c : UInt8) : ℕ :=
  if c = byte '"' ∨ c = byte '\\' ∨ c = 8 ∨ c = 12 ∨ c = 10 ∨ c = 13 ∨ c = 9 then 1
  else if c < 32 then 5
  else 0

def hexDigit (d : ℕ) : UInt8 := if d < 10 then (48 + d).toUInt8 else (87 + d).toUInt8

/-- `sprintf("u%04x")` of a byte -/
def sprintfU (c : UInt8) : List UInt8 :=
  [byte 'u', byte '0', byte '0', hexDigit (c.toNat / 16), hexDigit (c.toNat % 16)]

/-- A byte as the copying loop of `print_string_ptr` writes it. -/
def escapeByte (c : UInt8) : List UInt8 :=
  if 31 < c ∧ c ≠ byte '"' ∧ c ≠ byte '\\' then [c]
  else
    byte '\\' ::
      if c = byte '\\' then [byte '\\']
      else if c = byte '"' then [byte '"']
      else if c = 8 then [byte 'b']
      else if c = 12 then [byte 'f']
      else if c = 10 then [byte 'n']
      else if c = 13 then [byte 'r']
      else if c = 9 then [byte 't']
      else sprintfU c

def printStringPtr (input : Option CStr) (p : PrintBuffer) : Except PrintFail PrintBuffer :=
  match input with
  | none => do
      let p ← ensure p 3
      return p.write [byte '"', byte '"']
  | some s => do
      let escapes := (s.bytes.map escapeCharacters).sum
      let p ← ensure p (s.bytes.length + escapes + 3)
      if escapes = 0 then return p.write (byte '"' :: s.bytes ++ [byte '"'])
      return p.write (byte '"' :: s.bytes.flatMap escapeByte ++ [byte '"'])

/-! ## Arrays and objects -/

/-- `print_array` around its loop -/
def printArray (printElements : PrintBuffer → Except PrintFail PrintBuffer) (p : PrintBuffer) :
    Except PrintFail PrintBuffer := do
  let p ← ensure p 1
  let p ← printElements (p.put [byte '[']).enter
  let p ← ensure p 2
  return (p.write [byte ']']).leave

/-- `print_object` around its loop -/
def printObject (printMembers : PrintBuffer → Except PrintFail PrintBuffer) (p : PrintBuffer) :
    Except PrintFail PrintBuffer := do
  let text := if p.format then [byte '{', byte '\n'] else [byte '{']
  let p ← ensure p (text.length + 1)
  let p ← printMembers (p.put text).enter
  let p ← ensure p (if p.format then p.depth + 1 else 2)
  let tabs := if p.format then List.replicate (p.depth - 1) (byte '\t') else []
  return (p.write (tabs ++ [byte '}'])).leave

def printArrayComma (more : Bool) (p : PrintBuffer) : Except PrintFail PrintBuffer := do
  if more then
    let text := if p.format then [byte ',', byte ' '] else [byte ',']
    let p ← ensure p (text.length + 1)
    return p.put text
  else return p

def printIndent (p : PrintBuffer) : Except PrintFail PrintBuffer := do
  if p.format then
    let p ← ensure p p.depth
    return p.put (List.replicate p.depth (byte '\t'))
  else return p

def printColon (p : PrintBuffer) : Except PrintFail PrintBuffer := do
  let text := if p.format then [byte ':', byte '\t'] else [byte ':']
  let p ← ensure p text.length
  return p.put text

def printObjectComma (more : Bool) (p : PrintBuffer) : Except PrintFail PrintBuffer := do
  let text := (if more then [byte ','] else []) ++ (if p.format then [byte '\n'] else [])
  let p ← ensure p (text.length + 1)
  return p.put text

mutual
def printValue : Item → PrintBuffer → Except PrintFail PrintBuffer
  | .mk kind _ child, p =>
      match kind with
      | .null => printLiteral (ascii "null") p
      | .false => printLiteral (ascii "false") p
      | .true => printLiteral (ascii "true") p
      | .number n => printNumber n p
      | .raw s => printLiteral s.bytes p
      | .string s => printStringPtr (some s) p
      | .array => printArray (printElements child) p
      | .object => printObject (printMembers child) p
      | .invalid => .error .notPrintable

/-- The loop of `print_array` -/
def printElements : List Item → PrintBuffer → Except PrintFail PrintBuffer
  | [], p => .ok p
  | item :: items, p => do
      let p ← printValue item p
      let p ← printArrayComma (!items.isEmpty) p.updateOffset
      printElements items p

/-- The loop of `print_object` -/
def printMembers : List Item → PrintBuffer → Except PrintFail PrintBuffer
  | [], p => .ok p
  | item :: items, p => do
      let p ← printIndent p
      let p ← printStringPtr item.string p
      let p ← printColon p.updateOffset
      let p ← printValue item p
      let p ← printObjectComma (!items.isEmpty) p.updateOffset
      printMembers items p
end

def print (item : Item) (format : Bool) : Except PrintFail CStr := do
  let p ← printValue item ⟨[], 256, 0, 0, false, format⟩
  let p := p.updateOffset
  return cstr (p.buffer.take p.offset)

/-- `cJSON_Print`: an error stands for a NULL result. -/
def cjsonPrint : Option Item → Except PrintFail CStr
  | none => .error .notPrintable
  | some item => print item true

def cjsonPrintUnformatted : Option Item → Except PrintFail CStr
  | none => .error .notPrintable
  | some item => print item false

/-- `print_value` on a buffer that the caller chose: what the buffer then holds, if it returns
true. -/
def printInto (item : Option Item) (length : ℤ) (noalloc format : Bool) : Option (List UInt8) :=
  if length < 0 then none
  else
    match item with
    | none => none
    | some item =>
        match printValue item ⟨[], length.toNat, 0, 0, noalloc, format⟩ with
        | .error _ => none
        | .ok p => some p.buffer

/-- `cJSON_PrintBuffered`: nothing stands for a NULL result. -/
def cjsonPrintBuffered (item : Option Item) (prebuffer : ℤ) (fmt : Bool) : Option (List UInt8) :=
  printInto item prebuffer false fmt

/-- `cJSON_PrintPreallocated` on a buffer of `length` bytes: nothing stands for false. -/
def cjsonPrintPreallocated (item : Option Item) (length : ℤ) (format : Bool) : Option (List UInt8) :=
  printInto item length true format

end CppJson
