import CppJson.Libc.Bytes

/-!
# `cJSON_Minify`

The text is changed in place: it is read through one pointer and written through another into the
same memory, up to its NUL.
-/

namespace CppJson

namespace Minify

/-- Memory, and where `input` and `output` point. -/
structure Cursor where
  mem : ℕ → UInt8
  input : ℕ
  output : ℕ

namespace Cursor

/-- `input[i]` -/
def peek (c : Cursor) (i : ℕ) : UInt8 := c.mem (c.input + i)

/-- `output[i] = b` -/
def write (c : Cursor) (i : ℕ) (b : UInt8) : Cursor :=
  { c with mem := Function.update c.mem (c.output + i) b }

/-- `input += n` -/
def skip (c : Cursor) (n : ℕ) : Cursor := { c with input := c.input + n }

/-- `input += n` and `output += n` -/
def advance (c : Cursor) (n : ℕ) : Cursor := { c with input := c.input + n, output := c.output + n }

end Cursor

/-- The loop of `skip_oneline_comment`. -/
def skipLine : ℕ → Cursor → Option Cursor
  | 0, _ => none
  | n + 1, c =>
      if c.peek 0 = 0 then some c
      else if c.peek 0 = byte '\n' then some (c.skip 1)
      else skipLine n (c.skip 1)

def skipOnelineComment (fuel : ℕ) (c : Cursor) : Option Cursor := skipLine fuel (c.skip 2)

/-- The loop of `skip_multiline_comment`. -/
def skipLines : ℕ → Cursor → Option Cursor
  | 0, _ => none
  | n + 1, c =>
      if c.peek 0 = 0 then some c
      else if c.peek 0 = byte '*' ∧ c.peek 1 = byte '/' then some (c.skip 2)
      else skipLines n (c.skip 1)

def skipMultilineComment (fuel : ℕ) (c : Cursor) : Option Cursor := skipLines fuel (c.skip 2)

/-- The loop of `minify_string`. -/
def copyString : ℕ → Cursor → Option Cursor
  | 0, _ => none
  | n + 1, c =>
      if c.peek 0 = 0 then some c
      else
        let c := c.write 0 (c.peek 0)
        if c.peek 0 = byte '"' then some ((c.write 0 (byte '"')).advance 1)
        else if c.peek 0 = byte '\\' ∧ c.peek 1 = byte '"' then
          copyString n (((c.write 1 (c.peek 1)).advance 1).advance 1)
        else copyString n (c.advance 1)

def minifyString (fuel : ℕ) (c : Cursor) : Option Cursor :=
  copyString fuel ((c.write 0 (c.peek 0)).advance 1)

/-- The cases of the `switch` for blanks. -/
def isBlank (c : UInt8) : Prop := c = byte ' ' ∨ c = byte '\t' ∨ c = byte '\r' ∨ c = byte '\n'

instance (c : UInt8) : Decidable (isBlank c) :=
  inferInstanceAs (Decidable (c = byte ' ' ∨ c = byte '\t' ∨ c = byte '\r' ∨ c = byte '\n'))

/-- The loop of `cJSON_Minify` and the NUL behind it. -/
def loop : ℕ → Cursor → Option Cursor
  | 0, _ => none
  | n + 1, c =>
      if c.peek 0 = 0 then some (c.write 0 0)
      else if isBlank (c.peek 0) then loop n (c.skip 1)
      else if c.peek 0 = byte '/' then
        if c.peek 1 = byte '/' then do loop n (← skipOnelineComment n c)
        else if c.peek 1 = byte '*' then do loop n (← skipMultilineComment n c)
        else loop n (c.skip 1)
      else if c.peek 0 = byte '"' then do loop n (← minifyString n c)
      else loop n ((c.write 0 (c.peek 0)).advance 1)

end Minify

/-- `cJSON_Minify` on the text at the beginning of `mem`. -/
def cjsonMinify (fuel : ℕ) (mem : ℕ → UInt8) : Option (ℕ → UInt8) :=
  (Minify.loop fuel ⟨mem, 0, 0⟩).map Minify.Cursor.mem

/-! ## What it is for -/

/-- The text behind a `//` comment. -/
def dropLine : List UInt8 → List UInt8
  | [] => []
  | c :: k => if c = byte '\n' then k else dropLine k

/-- The text behind a comment that ends with an asterisk and a slash. -/
def dropLines : List UInt8 → List UInt8
  | [] => []
  | c :: k => if c = byte '*' ∧ k.head? = some (byte '/') then k.tail else dropLines k

/-- A text behind a quotation mark is split behind the next one that has no backslash in front of
it. -/
def splitString : List UInt8 → List UInt8 × List UInt8
  | [] => ([], [])
  | [c] => ([c], [])
  | c :: d :: k =>
      if c = byte '"' then ([c], d :: k)
      else if c = byte '\\' ∧ d = byte '"' then (c :: d :: (splitString k).1, (splitString k).2)
      else (c :: (splitString (d :: k)).1, (splitString (d :: k)).2)

theorem length_dropLine_le (l : List UInt8) : (dropLine l).length ≤ l.length := by
  induction l with
  | nil => exact le_rfl
  | cons c k ih =>
      rw [dropLine]
      split <;> simp only [List.length_cons] <;> omega

theorem length_dropLines_le (l : List UInt8) : (dropLines l).length ≤ l.length := by
  induction l with
  | nil => exact le_rfl
  | cons c k ih =>
      rw [dropLines]
      split <;> simp only [List.length_cons, List.length_tail] <;> omega

theorem length_splitString_le (l : List UInt8) : (splitString l).2.length ≤ l.length := by
  fun_induction splitString l with
  | case1 => exact le_rfl
  | case2 c => exact Nat.zero_le _
  | case3 d k => simp
  | case4 c d k _ _ ih => simp only [List.length_cons]; omega
  | case5 c d k _ _ ih => simp only [List.length_cons] at ih ⊢; omega

/-- The text without blanks and comments. -/
def minified : List UInt8 → List UInt8
  | [] => []
  | c :: k =>
      if Minify.isBlank c then minified k
      else if c = byte '/' then
        if k.head? = some (byte '/') then minified (dropLine k.tail)
        else if k.head? = some (byte '*') then minified (dropLines k.tail)
        else minified k
      else if c = byte '"' then c :: (splitString k).1 ++ minified (splitString k).2
      else c :: minified k
termination_by l => l.length
decreasing_by
  all_goals simp only [List.length_cons]
  · omega
  · have := length_dropLine_le k.tail
    simp only [List.length_tail] at this
    omega
  · have := length_dropLines_le k.tail
    simp only [List.length_tail] at this
    omega
  · omega
  · have := length_splitString_le k
    omega
  · omega

end CppJson
