import Mathlib.Data.Int.Log
import Mathlib.Data.Nat.Digits.Lemmas
import Mathlib.Data.List.DropRight
import Mathlib.Data.Rat.Floor
import Mathlib.Algebra.Order.Field.Power
import CppJson.Libc.Bytes

/-!
# `double`, `strtod` and `sprintf`

A finite binary64 value is kept as the rational it denotes. The two zeros share a representation: no
function of the program tells them apart. NaN is left out, since no text that reaches `strtod`
denotes one.
-/

namespace CppJson

/-! ## Values -/

structure Finite where
  val : ℚ
  lt_max : |val| < 2 ^ 1024
  ge_min : val ≠ 0 → 2 ^ (-1074 : ℤ) ≤ |val|

inductive Double where
  | finite (x : Finite)
  | infinite (neg : Bool)

/-- Round to the nearest integer, a tie to the even one. -/
def roundHalfEven (x : ℚ) : ℤ :=
  if x - ⌊x⌋ < 1 / 2 then ⌊x⌋
  else if 1 / 2 < x - ⌊x⌋ then ⌊x⌋ + 1
  else if ⌊x⌋ % 2 = 0 then ⌊x⌋ else ⌊x⌋ + 1

/-- The exponent of the last of the 53 bits that binary64 keeps of `q`; subnormals stop at -1074. -/
def ulpExponent (q : ℚ) : ℤ := max (Int.log 2 |q| - 52) (-1074)

/-- `q` rounded to 53 bits, with no bound on the exponent from above. -/
def roundBits (q : ℚ) : ℚ := roundHalfEven (q / 2 ^ ulpExponent q) * 2 ^ ulpExponent q

theorem roundBits_ge_min {q : ℚ} (h : roundBits q ≠ 0) : 2 ^ (-1074 : ℤ) ≤ |roundBits q| := by
  have hu : (0 : ℚ) < 2 ^ ulpExponent q := zpow_pos (by norm_num) _
  have hm : roundHalfEven (q / 2 ^ ulpExponent q) ≠ 0 := by
    intro h0; exact h (by simp [roundBits, h0])
  have hm1 : (1 : ℚ) ≤ |(roundHalfEven (q / 2 ^ ulpExponent q) : ℚ)| := by
    exact_mod_cast Int.one_le_abs hm
  calc (2 : ℚ) ^ (-1074 : ℤ) ≤ 2 ^ ulpExponent q :=
        zpow_le_zpow_right₀ (by norm_num) (le_max_right _ _)
    _ ≤ |(roundHalfEven (q / 2 ^ ulpExponent q) : ℚ)| * 2 ^ ulpExponent q :=
        le_mul_of_one_le_left hu.le hm1
    _ = |roundBits q| := by rw [roundBits, abs_mul, abs_of_pos hu]

/-- The `double` nearest to a rational, ties to even, overflow to an infinity. -/
def roundDouble (q : ℚ) : Double :=
  if h : |roundBits q| < 2 ^ 1024 then .finite ⟨roundBits q, h, roundBits_ge_min⟩
  else .infinite (q < 0)

def intMax : ℕ := 2147483647

def intMin : ℤ := -2147483648

/-- The conversion of `parse_number` from `double` to `int`, saturating in case of overflow. -/
def saturate : Double → ℤ
  | .infinite neg => if neg then intMin else intMax
  | .finite x =>
      if intMax ≤ x.val then intMax
      else if x.val ≤ intMin then intMin
      else x.val.num.tdiv x.val.den

/-! ## `strtod` -/

def digitVal (b : UInt8) : ℕ := b.toNat - 48

def decimal (ds : List UInt8) : ℕ := ds.foldl (fun n d => 10 * n + digitVal d) 0

/-- An optional sign: whether it is a minus, and what follows it. -/
def strtodSign : List UInt8 → Bool × List UInt8
  | [] => (false, [])
  | b :: s => if b = byte '-' then (true, s) else if b = byte '+' then (false, s) else (false, b :: s)

/-- An optional radix point with the digits behind it, and what follows. -/
def strtodFraction : List UInt8 → List UInt8 × List UInt8
  | [] => ([], [])
  | b :: s =>
      if b = byte '.' then (s.takeWhile isDigit, s.dropWhile isDigit) else ([], b :: s)

/-- An optional exponent, and what follows. An `e` without digits is not part of the number. -/
def strtodExponent : List UInt8 → ℤ × List UInt8
  | [] => (0, [])
  | b :: s =>
      if b = byte 'e' ∨ b = byte 'E' then
        let (neg, s') := strtodSign s
        let ds := s'.takeWhile isDigit
        if ds = [] then (0, b :: s)
        else (if neg then -(decimal ds : ℤ) else decimal ds, s'.dropWhile isDigit)
      else (0, b :: s)

/-- `strtod`: the value of the longest number the text starts with, and the text behind it
(`after_end`). The characters that `parse_number` copies spell no hexadecimal number, infinity or
NaN. -/
def strtod (text : List UInt8) : Double × List UInt8 :=
  let (neg, s) := strtodSign text
  let ints := s.takeWhile isDigit
  let (fracs, s') := strtodFraction (s.dropWhile isDigit)
  if ints ++ fracs = [] then (roundDouble 0, text)
  else
    let (e, s'') := strtodExponent s'
    let q : ℚ := decimal (ints ++ fracs) * 10 ^ (e - fracs.length)
    (roundDouble (if neg then -q else q), s'')

/-! ## `sprintf` -/

def digitByte (d : ℕ) : UInt8 := (48 + d).toUInt8

def decDigits (n : ℕ) : List UInt8 :=
  if n = 0 then [byte '0'] else (Nat.digits 10 n).reverse.map digitByte

/-- `"%d"` -/
def sprintfD (n : ℤ) : List UInt8 :=
  if n < 0 then byte '-' :: decDigits n.natAbs else decDigits n.natAbs

/-- The `p` significant decimal digits of a positive `q` as one integer, and the exponent of the
first. -/
def scientific (p : ℕ) (q : ℚ) : ℕ × ℤ :=
  let x := Int.log 10 q
  let d := (roundHalfEven (q / 10 ^ (x - (p - 1)))).toNat
  if d = 10 ^ p then (10 ^ (p - 1), x + 1) else (d, x)

/-- A radix point and the digits behind it, or nothing when there are none. -/
def fraction (ds : List UInt8) : List UInt8 := if ds = [] then [] else byte '.' :: ds

/-- The exponent of the `e` style: a sign and at least two digits. -/
def exponentText (x : ℤ) : List UInt8 :=
  byte 'e' :: (if x < 0 then byte '-' else byte '+') ::
    (if x.natAbs < 10 then byte '0' :: decDigits x.natAbs else decDigits x.natAbs)

/-- `"%1.{p}g"` of a positive number: `p` significant digits without trailing zeros, in the `f`
style when the exponent is in `[-4, p)` and in the `e` style otherwise. -/
def sprintfGPos (p : ℕ) (q : ℚ) : List UInt8 :=
  let (d, x) := scientific p q
  let ds := (decDigits d).rdropWhile (· = byte '0')
  if x < -4 ∨ p ≤ x then ds.take 1 ++ fraction (ds.drop 1) ++ exponentText x
  else if x < 0 then byte '0' :: fraction (List.replicate (-x - 1).toNat (byte '0') ++ ds)
  else
    let k := x.toNat + 1
    ds.take k ++ List.replicate (k - ds.length) (byte '0') ++ fraction (ds.drop k)

/-- `"%1.{p}g"` -/
def sprintfG (p : ℕ) (x : Finite) : List UInt8 :=
  if x.val = 0 then [byte '0']
  else if x.val < 0 then byte '-' :: sprintfGPos p |x.val|
  else sprintfGPos p |x.val|

/-! ## Comparison -/

def leMagnitude : Double → Double → Bool
  | .finite a, .finite b => a.val ≤ b.val
  | _, .infinite _ => true
  | .infinite _, .finite _ => false

/-- `compare_double`, where `b` is the finite number that was printed and `a` the one read back. -/
def compareDouble (a : Double) (b : Finite) : Bool :=
  match a with
  | .finite a =>
      leMagnitude (roundDouble |a.val - b.val|) (roundDouble (max |a.val| |b.val| * 2 ^ (-52 : ℤ)))
  -- both sides are an infinity
  | .infinite _ => true

end CppJson
