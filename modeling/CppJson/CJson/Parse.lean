import CppJson.CJson.Item

/-!
# `cJSON_Parse`

`parse_value` calls itself through `parse_array` and `parse_object`; the model recurses on how many
levels may still follow, and each element loop on a bound for its iterations. Allocation always
succeeds, and the error position, which the program never reads, is not kept.
-/

namespace CppJson

def nestingLimit : ℕ := 1000

/-- `parse_buffer`: `length` is the length of `content`, the terminating NUL included. -/
structure ParseBuffer where
  content : List UInt8
  offset : ℕ
  depth : ℕ

namespace ParseBuffer

def rest (b : ParseBuffer) : List UInt8 := b.content.drop b.offset

/-- `buffer_at_offset(b)[0]`, if it can be accessed. -/
def peek (b : ParseBuffer) : Option UInt8 := b.rest.head?

def advance (b : ParseBuffer) (n : ℕ) : ParseBuffer := { b with offset := b.offset + n }

def stepBack (b : ParseBuffer) : ParseBuffer := { b with offset := b.offset - 1 }

def enter (b : ParseBuffer) : ParseBuffer := { b with depth := b.depth + 1 }

def leave (b : ParseBuffer) : ParseBuffer := { b with depth := b.depth - 1 }

end ParseBuffer

/-- Why a parse function does not return true. -/
inductive Stop where
  /-- It returns false. -/
  | rejected
  /-- It reads the byte behind the buffer. -/
  | overread
  | outOfFuel
deriving DecidableEq

/-! ## Whitespace -/

/-- `buffer_skip_whitespace`: at the end of the buffer it steps back onto the last byte. -/
def bufferSkipWhitespace (b : ParseBuffer) : ParseBuffer :=
  if b.rest = [] then b
  else
    let b' := b.advance (b.rest.takeWhile (· ≤ 32)).length
    if b'.offset = b'.content.length then b'.stepBack else b'

def utf8Bom : List UInt8 := [0xEF, 0xBB, 0xBF]

def skipUtf8Bom (b : ParseBuffer) : ParseBuffer :=
  if 4 < b.rest.length ∧ utf8Bom <+: b.rest then b.advance 3 else b

/-! ## Numbers -/

def isNumberChar (b : UInt8) : Bool :=
  isDigit b || b == byte '+' || b == byte '-' || b == byte 'e' || b == byte 'E' || b == byte '.'

/-- `parse_number`: the temporary buffer has room for 63 characters. -/
def parseNumber (b : ParseBuffer) : Except Stop (Number × ParseBuffer) :=
  let numberCString := (b.rest.take 63).takeWhile isNumberChar
  let (number, afterEnd) := strtod numberCString
  if afterEnd.length = numberCString.length then .error .rejected
  else .ok (.ofDouble number, b.advance (numberCString.length - afterEnd.length))

/-! ## Strings -/

def hexVal (b : UInt8) : Option ℕ :=
  if byte '0' ≤ b ∧ b ≤ byte '9' then some (b.toNat - 48)
  else if byte 'A' ≤ b ∧ b ≤ byte 'F' then some (10 + b.toNat - 65)
  else if byte 'a' ≤ b ∧ b ≤ byte 'f' then some (10 + b.toNat - 97)
  else none

/-- `parse_hex4`: an invalid digit makes the result 0. -/
def parseHex4 (input : List UInt8) : ℕ :=
  match (input.take 4).mapM hexVal with
  | none => 0
  | some ds => ds.foldl (fun h d => h <<< 4 + d) 0

/-- The loop of `utf16_literal_to_utf8` over the bytes behind the first one, from the last to the
second. -/
def encodeTail : ℕ → ℕ → List UInt8 → ℕ × List UInt8
  | 0, codepoint, out => (codepoint, out)
  | n + 1, codepoint, out =>
      encodeTail n (codepoint >>> 6) (((codepoint ||| 0x80) &&& 0xBF).toUInt8 :: out)

/-- The second half of `utf16_literal_to_utf8`: the code point as UTF-8. -/
def encodeUtf8 (codepoint : ℕ) : Option (List UInt8) :=
  let multi (utf8Length firstByteMark : ℕ) : Option (List UInt8) :=
    let (codepoint, out) := encodeTail (utf8Length - 1) codepoint []
    some (((codepoint ||| firstByteMark) &&& 0xFF).toUInt8 :: out)
  if codepoint < 0x80 then some [(codepoint &&& 0x7F).toUInt8]
  else if codepoint < 0x800 then multi 2 0xC0
  else if codepoint < 0x10000 then multi 3 0xE0
  else if codepoint ≤ 0x10FFFF then multi 4 0xF0
  else none

/-- `utf16_literal_to_utf8` on the bytes from `input_pointer` to `input_end`: what it writes and the
length of the sequence it read. -/
def utf16LiteralToUtf8 (input : List UInt8) : Option (List UInt8 × ℕ) :=
  if input.length < 6 then none
  else
    let firstCode := parseHex4 (input.drop 2)
    if 0xDC00 ≤ firstCode ∧ firstCode ≤ 0xDFFF then none
    else if 0xD800 ≤ firstCode ∧ firstCode ≤ 0xDBFF then
      let secondSequence := input.drop 6
      if secondSequence.length < 6 then none
      else if secondSequence.take 2 ≠ [byte '\\', byte 'u'] then none
      else
        let secondCode := parseHex4 (secondSequence.drop 2)
        if secondCode < 0xDC00 ∨ 0xDFFF < secondCode then none
        else
          (encodeUtf8 (0x10000 + (((firstCode &&& 0x3FF) <<< 10) ||| (secondCode &&& 0x3FF)))).map
            (·, 12)
    else (encodeUtf8 firstCode).map (·, 6)

/-- The first loop of `parse_string`: how many bytes stand in front of the closing quote. -/
def scanString : List UInt8 → Option ℕ
  | [] => none
  | c :: cs =>
      if c = byte '"' then some 0
      else if c = byte '\\' then
        match cs with
        | [] => none
        | _ :: cs => (scanString cs).map (· + 2)
      else (scanString cs).map (· + 1)

def unescape (e : UInt8) : Option UInt8 :=
  if e = byte 'b' then some 8
  else if e = byte 'f' then some 12
  else if e = byte 'n' then some 10
  else if e = byte 'r' then some 13
  else if e = byte 't' then some 9
  else if e = byte '"' ∨ e = byte '\\' ∨ e = byte '/' then some e
  else none

/-- The second loop of `parse_string`, on the bytes between the quotes. A `\u` sequence may end in
the middle of an escape that the first loop skipped, so a lone backslash can be left: the byte
behind it is the closing quote. -/
def decodeString : ℕ → List UInt8 → Option (List UInt8)
  | _, [] => some []
  | 0, _ :: _ => none
  | n + 1, c :: cs =>
      if c ≠ byte '\\' then (decodeString n cs).map (c :: ·)
      else
        let e := cs.headD (byte '"')
        match unescape e with
        | some b => (decodeString n (cs.drop 1)).map (b :: ·)
        | none =>
            if e = byte 'u' then
              match utf16LiteralToUtf8 (c :: cs) with
              | none => none
              | some (out, sequenceLength) =>
                  (decodeString n (cs.drop (sequenceLength - 1))).map (out ++ ·)
            else none

/-- `parse_string` looks for the opening quote without a check that the buffer goes on. -/
def parseString (b : ParseBuffer) : Except Stop (CStr × ParseBuffer) :=
  match b.rest with
  | [] => .error .overread
  | c :: cs =>
      if c ≠ byte '"' then .error .rejected
      else
        match scanString cs with
        | none => .error .rejected
        | some n =>
            match decodeString n (cs.take n) with
            | none => .error .rejected
            | some output => .ok (cstr output, b.advance (n + 2))

/-! ## Arrays and objects -/

/-- The type of `parse_value`: the name of the node to fill in, and the buffer. -/
abbrev ParseValue := Option CStr → ParseBuffer → Except Stop (Item × ParseBuffer)

/-- The `do … while` loop of `parse_array`, from the byte in front of an element. -/
def parseElements (parseValue : ParseValue) :
    ℕ → ParseBuffer → Except Stop (List Item × ParseBuffer)
  | 0, _ => .error .outOfFuel
  | n + 1, b => do
      let (item, b) ← parseValue none (bufferSkipWhitespace (b.advance 1))
      let b := bufferSkipWhitespace b
      if b.peek = some (byte ',') then
        let (items, b) ← parseElements parseValue n b
        return (item :: items, b)
      else return ([item], b)

def parseArray (parseValue : ParseValue) (string : Option CStr) (b : ParseBuffer) :
    Except Stop (Item × ParseBuffer) := do
  if nestingLimit ≤ b.depth then throw .rejected
  let b := b.enter
  if b.peek ≠ some (byte '[') then throw .rejected
  let b := bufferSkipWhitespace (b.advance 1)
  if b.peek = some (byte ']') then return (.mk .array string [], b.leave.advance 1)
  if b.peek = none then throw .rejected
  let (items, b) ← parseElements parseValue (b.content.length + 1) b.stepBack
  if b.peek ≠ some (byte ']') then throw .rejected
  return (.mk .array string items, b.leave.advance 1)

/-- The `do … while` loop of `parse_object`, from the byte in front of a member. -/
def parseMembers (parseValue : ParseValue) :
    ℕ → ParseBuffer → Except Stop (List Item × ParseBuffer)
  | 0, _ => .error .outOfFuel
  | n + 1, b => do
      let (string, b) ← parseString (bufferSkipWhitespace (b.advance 1))
      let b := bufferSkipWhitespace b
      if b.peek ≠ some (byte ':') then throw .rejected
      let (item, b) ← parseValue (some string) (bufferSkipWhitespace (b.advance 1))
      let b := bufferSkipWhitespace b
      if b.peek = some (byte ',') then
        let (items, b) ← parseMembers parseValue n b
        return (item :: items, b)
      else return ([item], b)

def parseObject (parseValue : ParseValue) (string : Option CStr) (b : ParseBuffer) :
    Except Stop (Item × ParseBuffer) := do
  if nestingLimit ≤ b.depth then throw .rejected
  let b := b.enter
  if b.peek ≠ some (byte '{') then throw .rejected
  let b := bufferSkipWhitespace (b.advance 1)
  if b.peek = some (byte '}') then return (.mk .object string [], b.leave.advance 1)
  if b.peek = none then throw .rejected
  let (items, b) ← parseMembers parseValue (b.content.length + 1) b.stepBack
  if b.peek ≠ some (byte '}') then throw .rejected
  return (.mk .object string items, b.leave.advance 1)

/-- `parse_value`; `string` is the name the node already has. -/
def parseValue : ℕ → Option CStr → ParseBuffer → Except Stop (Item × ParseBuffer)
  | 0, _, _ => .error .outOfFuel
  | n + 1, string, b => do
      if ascii "null" <+: b.rest then return (.mk .null string [], b.advance 4)
      if ascii "false" <+: b.rest then return (.mk .false string [], b.advance 5)
      if ascii "true" <+: b.rest then return (.mk .true string [], b.advance 4)
      match b.peek with
      | none => throw .rejected
      | some c =>
          if c = byte '"' then
            let (s, b) ← parseString b
            return (.mk (.string s) string [], b)
          else if c = byte '-' ∨ isDigit c then
            let (number, b) ← parseNumber b
            return (.mk (.number number) string [], b)
          else if c = byte '[' then parseArray (parseValue n) string b
          else if c = byte '{' then parseObject (parseValue n) string b
          else throw .rejected

/-- `cJSON_Parse`: with `require_null_terminated` unset, what follows the first value is ignored. -/
def cjsonParse (value : CStr) : Option Item :=
  let buffer : ParseBuffer := ⟨value.bytes ++ [0], 0, 0⟩
  match parseValue (nestingLimit + 1) none (bufferSkipWhitespace (skipUtf8Bom buffer)) with
  | .ok (item, _) => some item
  | .error _ => none

/-- `cJSON_ParseWithLengthOpts` on the `buffer_length` bytes at `value`: the tree, and the offset
that `return_parse_end` is set to. -/
def cjsonParseWithLengthOpts (value : List UInt8) (requireNullTerminated : Bool) :
    Except Stop (Item × ℕ) :=
  if value = [] then .error .rejected
  else
    match parseValue (nestingLimit + 1) none (bufferSkipWhitespace (skipUtf8Bom ⟨value, 0, 0⟩)) with
    | .error e => .error e
    | .ok (item, b) =>
        if requireNullTerminated then
          let b := bufferSkipWhitespace b
          if b.peek = some 0 then .ok (item, b.offset) else .error .rejected
        else .ok (item, b.offset)

/-- `cJSON_ParseWithOpts`: behind the text there is a NUL, and `parse_string` does not read past
it. -/
def cjsonParseWithOpts (value : CStr) (requireNullTerminated : Bool) : Option (Item × ℕ) :=
  (cjsonParseWithLengthOpts (value.bytes ++ [0]) requireNullTerminated).toOption

def cjsonParseWithLength (value : List UInt8) : Except Stop Item :=
  (cjsonParseWithLengthOpts value false).map Prod.fst

end CppJson
