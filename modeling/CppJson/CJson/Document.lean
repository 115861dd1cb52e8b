import CppJson.Lib.Json
import CppJson.CJson.Parse
import CppJson.CJson.Print

/-!
# Documents

What a tree stands for: the text that printing gives, the syntax tree of that text, and the tree
that parsing gives for a syntax tree.
-/

namespace CppJson

open Json

/-! ## Well-formed trees -/

def Kind.IsScalar : Kind → Prop
  | null | false | true | number _ | string _ => True
  | invalid | array | object | raw _ => False

def Number.IsInt (n : Number) : Prop :=
  ∃ x, n.valuedouble = .finite x ∧ ∃ z : ℤ, x.val = z ∧ intMin ≤ z ∧ z ≤ intMax

namespace Item

/-- No node is invalid. -/
inductive Printable : Item → Prop where
  | mk {kind string child} : kind ≠ .invalid → (∀ c ∈ child, Printable c) →
      Printable (.mk kind string child)

/-- The shape of a parsed tree with at most `n` arrays and objects around a node: the elements of an
array have no name, the members of an object have one. -/
inductive WellFormed : ℕ → Item → Prop where
  | scalar {n kind string} : kind.IsScalar → WellFormed n (.mk kind string [])
  | array {n string child} : (∀ c ∈ child, c.string = none) → (∀ c ∈ child, WellFormed n c) →
      WellFormed (n + 1) (.mk .array string child)
  | object {n string child} : (∀ c ∈ child, c.string ≠ none) → (∀ c ∈ child, WellFormed n c) →
      WellFormed (n + 1) (.mk .object string child)

/-- Every number of the tree is an integer in the range of `int`. -/
inductive Integral : Item → Prop where
  | mk {kind string child} : (∀ n, kind = .number n → n.IsInt) → (∀ c ∈ child, Integral c) →
      Integral (.mk kind string child)

end Item

/-! ## The tree of a syntax tree -/

mutual
/-- The tree that parsing gives for a value, in a node with the given name. -/
def ofJson (string : Option CStr) : Json → Item
  | .null => .mk .null string []
  | .bool false => .mk .false string []
  | .bool true => .mk .true string []
  | .number t => .mk (.number (.ofDouble (strtod t).1)) string []
  | .string cs => .mk (.string (cstr (decode cs))) string []
  | .array xs => .mk .array string (ofElements xs)
  | .object ms => .mk .object string (ofMembers ms)

def ofElements : List Json → List Item
  | [] => []
  | x :: xs => ofJson none x :: ofElements xs

def ofMembers : List (List Chr × Json) → List Item
  | [] => []
  | (name, x) :: ms => ofJson (some (cstr (decode name))) x :: ofMembers ms
end

mutual
/-- What `parse_value` accepts of the grammar, with at most `n` arrays and objects around a
value. -/
def Accepted : ℕ → Json → Prop
  | _, .null => True
  | _, .bool _ => True
  | _, .number t => t.length ≤ 63
  | _, .string cs => Paired cs
  | 0, .array _ => False
  | 0, .object _ => False
  | n + 1, .array xs => AcceptedElements n xs
  | n + 1, .object ms => AcceptedMembers n ms

def AcceptedElements : ℕ → List Json → Prop
  | _, [] => True
  | n, x :: xs => Accepted n x ∧ AcceptedElements n xs

def AcceptedMembers : ℕ → List (List Chr × Json) → Prop
  | _, [] => True
  | n, (name, x) :: ms => Paired name ∧ Accepted n x ∧ AcceptedMembers n ms
end

/-! ## The syntax tree of a tree -/

/-- A byte as a character of a printed string. -/
def escapeChr (c : UInt8) : Chr :=
  if 31 < c ∧ c ≠ byte '"' ∧ c ≠ byte '\\' then .plain c
  else if c = byte '\\' then .escape (byte '\\')
  else if c = byte '"' then .escape (byte '"')
  else if c = 8 then .escape (byte 'b')
  else if c = 12 then .escape (byte 'f')
  else if c = 10 then .escape (byte 'n')
  else if c = 13 then .escape (byte 'r')
  else if c = 9 then .escape (byte 't')
  else .unicode (byte '0') (byte '0') (hexDigit (c.toNat / 16)) (hexDigit (c.toNat % 16))

def chars (bytes : List UInt8) : List Chr := bytes.map escapeChr

/-- JSON has no infinity. -/
def numberJson (n : Number) : Json :=
  match n.valuedouble with
  | .infinite _ => .null
  | .finite _ => .number (numberText n)

/-- The name that is printed for a member; a missing one is printed as an empty string. -/
def memberName (item : Item) : List UInt8 :=
  match item.string with
  | none => []
  | some s => s.bytes

mutual
/-- The syntax tree of the text that printing gives. -/
def toJson : Item → Json
  | .mk kind _ child =>
      match kind with
      | .invalid => .null
      | .raw _ => .null
      | .null => .null
      | .false => .bool false
      | .true => .bool true
      | .number n => numberJson n
      | .string s => .string (chars s.bytes)
      | .array => .array (toElements child)
      | .object => .object (toMembers child)

def toElements : List Item → List Json
  | [] => []
  | item :: items => toJson item :: toElements items

def toMembers : List Item → List (List Chr × Json)
  | [] => []
  | item :: items => (chars (memberName item), toJson item) :: toMembers items
end

/-! ## Read and written -/

mutual
/-- What is left of a value that was read and written: strings end in front of their first NUL, and
a number is written as another number or, when it is infinite, as `null`. -/
inductive Kept : Json → Json → Prop where
  | null : Kept .null .null
  | bool {b} : Kept (.bool b) (.bool b)
  | number {t t'} : Kept (.number t) (.number t')
  | infinite {t} : Kept (.number t) .null
  | string {cs cs'} : decode cs' = (cstr (decode cs)).bytes → Kept (.string cs) (.string cs')
  | array {xs ys} : KeptElements xs ys → Kept (.array xs) (.array ys)
  | object {ms ms'} : KeptMembers ms ms' → Kept (.object ms) (.object ms')

inductive KeptElements : List Json → List Json → Prop where
  | nil : KeptElements [] []
  | cons {x y xs ys} : Kept x y → KeptElements xs ys → KeptElements (x :: xs) (y :: ys)

inductive KeptMembers : List (List Chr × Json) → List (List Chr × Json) → Prop where
  | nil : KeptMembers [] []
  | cons {name name' x y ms ms'} : decode name' = (cstr (decode name)).bytes → Kept x y →
      KeptMembers ms ms' →
      KeptMembers ((name, x) :: ms) ((name', y) :: ms')
end

/-! ## The text of a tree -/

section Text

variable (format : Bool)

/-- Whitespace that only the formatted text has. -/
def space (text : List UInt8) : List UInt8 := if format then text else []

def tabs (depth : ℕ) : List UInt8 := space format (List.replicate depth (byte '\t'))

def elementComma (more : Bool) : List UInt8 := if more then byte ',' :: space format [byte ' '] else []

def memberComma (more : Bool) : List UInt8 :=
  (if more then [byte ','] else []) ++ space format [byte '\n']

mutual
/-- The text that printing gives for a node at the given depth. -/
def render : ℕ → Item → List UInt8
  | depth, .mk kind _ child =>
      match kind with
      | .invalid => []
      | .raw s => s.bytes
      | .null => ascii "null"
      | .false => ascii "false"
      | .true => ascii "true"
      | .number n => numberText n
      | .string s => stringText (chars s.bytes)
      | .array => byte '[' :: renderElements (depth + 1) child ++ [byte ']']
      | .object =>
          byte '{' :: space format [byte '\n'] ++ renderMembers (depth + 1) child ++
            tabs format depth ++ [byte '}']

def renderElements : ℕ → List Item → List UInt8
  | _, [] => []
  | depth, item :: items =>
      render depth item ++ elementComma format (!items.isEmpty) ++ renderElements depth items

def renderMembers : ℕ → List Item → List UInt8
  | _, [] => []
  | depth, item :: items =>
      tabs format depth ++ stringText (chars (memberName item)) ++
        (byte ':' :: space format [byte '\t']) ++
        render depth item ++ memberComma format (!items.isEmpty) ++ renderMembers depth items
end

end Text

end CppJson
