import Mathlib.Tactic.Common

/-!
# ASCII text as bytes
-/

namespace CppJson

/-- The byte of an ASCII character literal. -/
abbrev byte (c : Char) : UInt8 := c.toNat.toUInt8

/-- The bytes of an ASCII string literal. -/
def ascii (s : String) : List UInt8 := s.toList.map byte

def isDigit (b : UInt8) : Bool := byte '0' ≤ b && b ≤ byte '9'

theorem forall_byte {P : UInt8 → Prop} (h : ∀ n : Fin 256, P (UInt8.ofFin n)) (c : UInt8) : P c :=
  h c.toFin

end CppJson
