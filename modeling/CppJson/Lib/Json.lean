import CppJson.Lib.Ascii

/-!
# JSON texts

The grammar of RFC 8259 over bytes. A syntax tree keeps the lexemes of numbers and the characters of
strings as they are written; whitespace is in the relation `IsText` only. That the bytes of a string
are UTF-8 is not required.
-/

namespace CppJson

namespace Json

/-! ## Strings -/

/-- A character of a string: a byte that stands for itself, a two-character escape, or `\u` with
four digits. -/
inductive Chr where
  | plain (b : UInt8)
  | escape (c : UInt8)
  | unicode (d₁ d₂ d₃ d₄ : UInt8)

/-- The value of a hexadecimal digit, 0 for any other byte. -/
def hexValue (b : UInt8) : ℕ :=
  if byte '0' ≤ b ∧ b ≤ byte '9' then b.toNat - 48
  else if byte 'A' ≤ b ∧ b ≤ byte 'F' then b.toNat - 55
  else if byte 'a' ≤ b ∧ b ≤ byte 'f' then b.toNat - 87
  else 0

def isHex (b : UInt8) : Bool :=
  (byte '0' ≤ b && b ≤ byte '9') || (byte 'A' ≤ b && b ≤ byte 'F') || (byte 'a' ≤ b && b ≤ byte 'f')

def codeUnit (d₁ d₂ d₃ d₄ : UInt8) : ℕ :=
  ((hexValue d₁ * 16 + hexValue d₂) * 16 + hexValue d₃) * 16 + hexValue d₄

/-- The letters of the two-character escapes, each with the byte it stands for. -/
def escapes : List (UInt8 × UInt8) :=
  [(byte '"', byte '"'), (byte '\\', byte '\\'), (byte '/', byte '/'), (byte 'b', 8), (byte 'f', 12),
    (byte 'n', 10), (byte 'r', 13), (byte 't', 9)]

namespace Chr

def Valid : Chr → Prop
  | plain b => 32 ≤ b ∧ b ≠ byte '"' ∧ b ≠ byte '\\'
  | escape c => (escapes.lookup c).isSome
  | unicode d₁ d₂ d₃ d₄ => isHex d₁ ∧ isHex d₂ ∧ isHex d₃ ∧ isHex d₄

instance : (c : Chr) → Decidable c.Valid
  | plain b => inferInstanceAs (Decidable (32 ≤ b ∧ b ≠ byte '"' ∧ b ≠ byte '\\'))
  | escape c => inferInstanceAs (Decidable (escapes.lookup c).isSome)
  | unicode d₁ d₂ d₃ d₄ => inferInstanceAs (Decidable (isHex d₁ ∧ isHex d₂ ∧ isHex d₃ ∧ isHex d₄))

def text : Chr → List UInt8
  | plain b => [b]
  | escape c => [byte '\\', c]
  | unicode d₁ d₂ d₃ d₄ => [byte '\\', byte 'u', d₁, d₂, d₃, d₄]

end Chr

def stringText (cs : List Chr) : List UInt8 := byte '"' :: cs.flatMap Chr.text ++ [byte '"']

def isHighSurrogate (u : ℕ) : Bool := 0xD800 ≤ u && u ≤ 0xDBFF

def isLowSurrogate (u : ℕ) : Bool := 0xDC00 ≤ u && u ≤ 0xDFFF

/-- The UTF-8 form of a code point; a surrogate gets the three bytes of its range. -/
def utf8 (n : ℕ) : List UInt8 :=
  if n < 0x80 then [n.toUInt8]
  else if n < 0x800 then [(0xC0 + n / 64).toUInt8, (0x80 + n % 64).toUInt8]
  else if n < 0x10000 then [(0xE0 + n / 4096).toUInt8, (0x80 + n / 64 % 64).toUInt8,
    (0x80 + n % 64).toUInt8]
  else
    [(0xF0 + n / 262144).toUInt8, (0x80 + n / 4096 % 64).toUInt8, (0x80 + n / 64 % 64).toUInt8,
      (0x80 + n % 64).toUInt8]

/-- A decoded character: a byte, or a code point that escapes name. -/
inductive Code where
  | byte (b : UInt8)
  | point (n : ℕ)

def Code.bytes : Code → List UInt8
  | byte b => [b]
  | point n => utf8 n

/-- Half of a surrogate pair, left without the other half. -/
def Code.isLone : Code → Bool
  | byte _ => false
  | point n => isHighSurrogate n || isLowSurrogate n

/-- Decoding takes a high surrogate and a low surrogate behind it as one code point. -/
def codes : List Chr → List Code
  | [] => []
  | .plain b :: cs => .byte b :: codes cs
  | .escape c :: cs => .byte ((escapes.lookup c).getD c) :: codes cs
  | .unicode d₁ d₂ d₃ d₄ :: .unicode e₁ e₂ e₃ e₄ :: cs =>
      if isHighSurrogate (codeUnit d₁ d₂ d₃ d₄) ∧ isLowSurrogate (codeUnit e₁ e₂ e₃ e₄) then
        .point (0x10000 + (codeUnit d₁ d₂ d₃ d₄ - 0xD800) * 0x400 +
          (codeUnit e₁ e₂ e₃ e₄ - 0xDC00)) :: codes cs
      else .point (codeUnit d₁ d₂ d₃ d₄) :: codes (.unicode e₁ e₂ e₃ e₄ :: cs)
  | .unicode d₁ d₂ d₃ d₄ :: cs => .point (codeUnit d₁ d₂ d₃ d₄) :: codes cs

/-- The bytes that a string stands for. -/
def decode (cs : List Chr) : List UInt8 := (codes cs).flatMap Code.bytes

/-- No surrogate is without its other half. -/
def Paired (cs : List Chr) : Prop := ∀ c ∈ codes cs, ¬c.isLone

instance (cs : List Chr) : Decidable (Paired cs) :=
  inferInstanceAs (Decidable (∀ c ∈ codes cs, ¬c.isLone))

/-! ## Numbers -/

def IsMinus (t : List UInt8) : Prop := t = [] ∨ t = [byte '-']

/-- `int`: no leading zeros. -/
def IsInt (t : List UInt8) : Prop :=
  t = [byte '0'] ∨ ∃ d ds, t = d :: ds ∧ d ≠ byte '0' ∧ ∀ x ∈ d :: ds, isDigit x

def IsFrac (t : List UInt8) : Prop := t = [] ∨ ∃ ds, t = byte '.' :: ds ∧ ds ≠ [] ∧ ∀ x ∈ ds, isDigit x

def IsExp (t : List UInt8) : Prop :=
  t = [] ∨ ∃ e sign ds, t = e :: (sign ++ ds) ∧ (e = byte 'e' ∨ e = byte 'E') ∧
    (sign = [] ∨ sign = [byte '+'] ∨ sign = [byte '-']) ∧ ds ≠ [] ∧ ∀ x ∈ ds, isDigit x

def IsNumber (t : List UInt8) : Prop :=
  ∃ m i f e, t = m ++ i ++ f ++ e ∧ IsMinus m ∧ IsInt i ∧ IsFrac f ∧ IsExp e

/-! ## Values -/

end Json

open Json in
inductive Json where
  | null
  | bool (b : Bool)
  | number (text : List UInt8)
  | string (chars : List Chr)
  | array (items : List Json)
  | object (members : List (List Chr × Json))

namespace Json

def IsWs (w : List UInt8) : Prop := ∀ b ∈ w, b = 32 ∨ b = 9 ∨ b = 10 ∨ b = 13

mutual
inductive IsValue : List UInt8 → Json → Prop where
  | null : IsValue (ascii "null") .null
  | false : IsValue (ascii "false") (.bool false)
  | true : IsValue (ascii "true") (.bool true)
  | number {t} : IsNumber t → IsValue t (.number t)
  | string {cs} : (∀ c ∈ cs, c.Valid) → IsValue (stringText cs) (.string cs)
  | emptyArray {w} : IsWs w → IsValue (byte '[' :: w ++ [byte ']']) (.array [])
  | array {t xs} : IsElements t xs → IsValue (byte '[' :: t ++ [byte ']']) (.array xs)
  | emptyObject {w} : IsWs w → IsValue (byte '{' :: w ++ [byte '}']) (.object [])
  | object {t ms} : IsMembers t ms → IsValue (byte '{' :: t ++ [byte '}']) (.object ms)

/-- The elements of an array, with the commas between them. -/
inductive IsElements : List UInt8 → List Json → Prop where
  | one {w t w' x} : IsWs w → IsValue t x → IsWs w' → IsElements (w ++ t ++ w') [x]
  | cons {w t w' x ts xs} : IsWs w → IsValue t x → IsWs w' → IsElements ts xs →
      IsElements (w ++ t ++ w' ++ byte ',' :: ts) (x :: xs)

/-- The members of an object, with the commas between them. -/
inductive IsMembers : List UInt8 → List (List Chr × Json) → Prop where
  | one {w cs w₁ w₂ t w' x} : IsWs w → (∀ c ∈ cs, c.Valid) → IsWs w₁ → IsWs w₂ → IsValue t x → IsWs w' →
      IsMembers (w ++ stringText cs ++ w₁ ++ byte ':' :: w₂ ++ t ++ w') [(cs, x)]
  | cons {w cs w₁ w₂ t w' x ts ms} : IsWs w → (∀ c ∈ cs, c.Valid) → IsWs w₁ → IsWs w₂ →
      IsValue t x → IsWs w' →
      IsMembers ts ms →
      IsMembers (w ++ stringText cs ++ w₁ ++ byte ':' :: w₂ ++ t ++ w' ++ byte ',' :: ts)
        ((cs, x) :: ms)
end

def IsText (t : List UInt8) (x : Json) : Prop :=
  ∃ w v w', t = w ++ v ++ w' ∧ IsWs w ∧ IsValue v x ∧ IsWs w'

end Json

end CppJson
