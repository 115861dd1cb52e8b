import CppJson.CJson.Minify

/-!
# Minifying in place

Writing never passes reading, so the loops read the text that was there at first (`Minifies`), and
leave in memory what the functions on lists give (`cjsonMinify_spec`).
-/

namespace CppJson

namespace Minify

variable {mem mem' : ℕ → UInt8} {i j : ℕ} {b d : UInt8} {l k out : List UInt8} {c c' : Cursor}

/-- The text `l` and a NUL stand at `i`. -/
def TextAt (mem : ℕ → UInt8) : ℕ → List UInt8 → Prop
  | i, [] => mem i = 0
  | i, b :: l => mem i = b ∧ b ≠ 0 ∧ TextAt mem (i + 1) l

theorem TextAt.congr (h : TextAt mem i l) (hsame : ∀ j ≥ i, mem' j = mem j) : TextAt mem' i l := by
  induction l generalizing i with
  | nil => exact (hsame i le_rfl).trans h
  | cons b l ih =>
      obtain ⟨hb, hne, hl⟩ := h
      exact ⟨(hsame i le_rfl).trans hb, hne, ih hl fun j hj => hsame j (by omega)⟩

/-- What was written is a text when a NUL is put behind it. -/
theorem TextAt.of_written (hout : 0 ∉ out) (hmem : ∀ j b, out[j]? = some b → mem (i + j) = b)
    (hend : mem (i + out.length) = 0) : TextAt mem i out := by
  induction out generalizing i with
  | nil => exact hend
  | cons b out ih =>
      rw [List.mem_cons, not_or] at hout
      refine ⟨hmem 0 b rfl, Ne.symm hout.1, ih hout.2 (fun j d hj => ?_) ?_⟩
      · have := hmem (j + 1) d hj
        rwa [← Nat.add_assoc, Nat.add_right_comm] at this
      · rw [List.length_cons] at hend
        rwa [Nat.add_right_comm, Nat.add_assoc]

/-- A text of `stop` bytes is being minified: `out` was written, `l` is still to be read, and memory
from there on is as it was at first. -/
structure Minifies (orig : ℕ → UInt8) (stop : ℕ) (c : Cursor) (out l : List UInt8) : Prop where
  output : c.output = out.length
  behind : c.output ≤ c.input
  written : ∀ j b, out[j]? = some b → c.mem j = b
  nul_free : 0 ∉ out
  unread : TextAt c.mem c.input l
  same : ∀ j ≥ c.input, c.mem j = orig j
  stop : c.input + l.length = stop

variable {orig : ℕ → UInt8} {stop : ℕ}

namespace Minifies

theorem peek_nil (h : Minifies orig stop c out []) : c.peek 0 = 0 := h.unread

theorem peek_cons (h : Minifies orig stop c out (b :: l)) : c.peek 0 = b := h.unread.1

theorem ne_zero (h : Minifies orig stop c out (b :: l)) : b ≠ 0 := h.unread.2.1

/-- The byte behind the next one. -/
theorem peek_one (h : Minifies orig stop c out (b :: l)) (hd : d ≠ 0) :
    c.peek 1 = d ↔ l.head? = some d := by
  have hl := h.unread.2.2
  cases l with
  | nil =>
      have hzero : c.peek 1 = 0 := hl
      simp [hzero, hd.symm]
  | cons e l =>
      have he : c.peek 1 = e := hl.1
      simp [he]

theorem skip (h : Minifies orig stop c out (b :: l)) : Minifies orig stop (c.skip 1) out l where
  output := h.output
  behind := by
    have := h.behind
    simp only [Cursor.skip]
    omega
  written := h.written
  nul_free := h.nul_free
  unread := h.unread.2.2
  same j hj := h.same j (by simp only [Cursor.skip] at hj; omega)
  stop := by
    have := h.stop
    simp only [Cursor.skip, List.length_cons] at *
    omega

/-- A byte is written in the place of one that was read. -/
theorem put (h : Minifies orig stop c out (b :: l)) (hd : d ≠ 0) :
    Minifies orig stop ((c.write 0 d).advance 1) (out ++ [d]) l := by
  have hbehind := h.behind
  have hother : ∀ j, j ≠ c.output → ((c.write 0 d).advance 1).mem j = c.mem j := fun j hj => by
    simp [Cursor.write, Cursor.advance, Function.update_of_ne hj]
  have hbeyond : ∀ j ≥ c.input + 1, ((c.write 0 d).advance 1).mem j = c.mem j :=
    fun j hj => hother j (by omega)
  constructor
  · simp [Cursor.advance, Cursor.write, h.output]
  · simpa [Cursor.advance, Cursor.write] using hbehind
  · intro j e hj
    rcases Nat.lt_or_ge j out.length with hlt | hge
    · rw [List.getElem?_append_left hlt] at hj
      rw [hother j (by rw [h.output]; omega), h.written j e hj]
    · rw [List.getElem?_append_right hge, List.getElem?_singleton] at hj
      have heq : j = c.output := by
        rw [h.output]
        split at hj
        · omega
        · cases hj
      rw [if_pos (by rw [← h.output]; omega), Option.some.injEq] at hj
      simp [heq, Cursor.advance, Cursor.write, hj]
  · simpa using ⟨h.nul_free, hd.symm⟩
  · exact h.unread.2.2.congr hbeyond
  · intro j hj
    have hj : c.input + 1 ≤ j := hj
    rw [hbeyond j hj, h.same j (by omega)]
  · have := h.stop
    simp only [Cursor.advance, Cursor.write, List.length_cons] at *
    omega

end Minifies

/-! ## The loops -/

section Loops

variable {n : ℕ}

theorem skipLine_spec (h : Minifies orig stop c out l) (hn : l.length < n) :
    ∃ c', skipLine n c = some c' ∧ Minifies orig stop c' out (dropLine l) := by
  induction n generalizing c l with
  | zero => exact absurd hn (Nat.not_lt_zero _)
  | succ n ih =>
      cases l with
      | nil => exact ⟨c, by rw [skipLine, if_pos h.peek_nil], h⟩
      | cons b l =>
          rw [skipLine, h.peek_cons, if_neg h.ne_zero, dropLine]
          split
          · exact ⟨_, rfl, h.skip⟩
          · exact ih h.skip (by simpa using hn)

theorem skipLines_spec (h : Minifies orig stop c out l) (hn : l.length < n) :
    ∃ c', skipLines n c = some c' ∧ Minifies orig stop c' out (dropLines l) := by
  induction n generalizing c l with
  | zero => exact absurd hn (Nat.not_lt_zero _)
  | succ n ih =>
      cases l with
      | nil => exact ⟨c, by rw [skipLines, if_pos h.peek_nil], h⟩
      | cons b l =>
          have hone : c.peek 1 = byte '/' ↔ l.head? = some (byte '/') := h.peek_one (by decide)
          simp only [skipLines, h.peek_cons, if_neg h.ne_zero, dropLines, hone]
          split
          · rename_i hend
            obtain ⟨k, rfl⟩ := List.head?_eq_some_iff.mp hend.2
            exact ⟨_, rfl, h.skip.skip⟩
          · exact ih h.skip (by simpa using hn)

theorem splitString_cons (b : UInt8) (l : List UInt8) : splitString (b :: l) =
    if b = byte '"' then ([b], l)
    else if b = byte '\\' ∧ l.head? = some (byte '"') then
      (b :: byte '"' :: (splitString l.tail).1, (splitString l.tail).2)
    else (b :: (splitString l).1, (splitString l).2) := by
  cases l with
  | nil => simp [splitString]
  | cons d k =>
      rw [splitString]
      simp only [List.head?_cons, Option.some.injEq, List.tail_cons]
      split
      · rfl
      · split
        · rename_i h
          rw [h.2]
        · rfl

/-- A byte that was written where it is read, or in front of it, is read again. -/
theorem Minifies.peek_write (h : Minifies orig stop c out (b :: l)) :
    (c.write 0 b).peek 0 = b ∧ (c.write 0 b).peek 1 = c.peek 1 := by
  have hbehind := h.behind
  have hpeek : c.mem c.input = b := h.peek_cons
  refine ⟨?_, Function.update_of_ne (by show c.input + 1 ≠ c.output; omega) _ _⟩
  by_cases heq : c.input = c.output
  · simp [Cursor.write, Cursor.peek, heq]
  · simp [Cursor.write, Cursor.peek, Function.update_of_ne heq, hpeek]

theorem copyString_spec (h : Minifies orig stop c out l) (hn : l.length < n) :
    ∃ c', copyString n c = some c' ∧
      Minifies orig stop c' (out ++ (splitString l).1) (splitString l).2 := by
  induction n generalizing c out l with
  | zero => exact absurd hn (Nat.not_lt_zero _)
  | succ n ih =>
      cases l with
      | nil => exact ⟨c, by rw [copyString, if_pos h.peek_nil], by simpa [splitString] using h⟩
      | cons b l =>
          obtain ⟨hpeek, hone⟩ := h.peek_write
          have hquote : c.peek 1 = byte '"' ↔ l.head? = some (byte '"') := h.peek_one (by decide)
          have hput := h.put h.ne_zero
          simp only [copyString, h.peek_cons, if_neg h.ne_zero, hpeek, hone, hquote, splitString_cons]
          split
          · rename_i hb
            refine ⟨_, rfl, ?_⟩
            have hagain : (c.write 0 b).write 0 (byte '"') = c.write 0 b := by simp [Cursor.write, hb]
            rwa [hagain]
          · split
            · rename_i hescape
              obtain ⟨k, rfl⟩ := List.head?_eq_some_iff.mp hescape.2
              have hputs := hput.put (d := byte '"') (by decide)
              have hsame : ((c.write 0 b).write 1 (byte '"')).advance 1 =
                  ((c.write 0 b).advance 1).write 0 (byte '"') := rfl
              rw [hquote.mpr hescape.2, hsame]
              simpa using ih hputs (by simp only [List.length_cons] at hn; omega)
            · simpa using ih hput (by simpa using hn)

/-- The loop takes away the blanks and comments. -/
theorem loop_spec (h : Minifies orig stop c out l) (hn : l.length < n) :
    ∃ c', loop n c = some c' ∧ TextAt c'.mem 0 (out ++ minified l) ∧ ∀ j > stop, c'.mem j = orig j := by
  induction n generalizing c out l with
  | zero => exact absurd hn (Nat.not_lt_zero _)
  | succ n ih =>
      cases l with
      | nil =>
          have hbehind := h.behind
          have hstop : c.input = stop := h.stop
          refine ⟨c.write 0 0, by rw [loop, if_pos h.peek_nil], ?_, fun j hj => ?_⟩
          · rw [minified, List.append_nil]
            refine .of_written h.nul_free (fun j b hj => ?_) (by simp [Cursor.write, h.output])
            obtain ⟨hlt, -⟩ := List.getElem?_eq_some_iff.mp hj
            have hne : 0 + j ≠ c.output := by rw [h.output]; omega
            exact (Function.update_of_ne hne _ _).trans (by rw [Nat.zero_add, h.written j b hj])
          · have hne : j ≠ c.output := by omega
            exact (Function.update_of_ne hne _ _).trans (h.same j (by omega))
      | cons b l =>
          have hn : l.length < n := by simpa using hn
          have hslash : c.peek 1 = byte '/' ↔ l.head? = some (byte '/') := h.peek_one (by decide)
          have hstar : c.peek 1 = byte '*' ↔ l.head? = some (byte '*') := h.peek_one (by decide)
          rw [loop, h.peek_cons, if_neg h.ne_zero, minified]
          simp only [hslash, hstar]
          by_cases hblank : isBlank b
          · rw [if_pos hblank, if_pos hblank]
            exact ih h.skip hn
          rw [if_neg hblank, if_neg hblank]
          by_cases hb : b = byte '/'
          · rw [if_pos hb, if_pos hb]
            by_cases hline : l.head? = some (byte '/')
            · rw [if_pos hline, if_pos hline]
              obtain ⟨k, rfl⟩ := List.head?_eq_some_iff.mp hline
              obtain ⟨c', hskip, h'⟩ :=
                skipLine_spec (n := n) h.skip.skip (by simp only [List.length_cons] at hn; omega)
              have hlen := length_dropLine_le k
              obtain ⟨c'', hloop, hres⟩ := ih h' (by simp only [List.length_cons] at hn; omega)
              exact ⟨c'', (congrArg (· >>= loop n) hskip).trans hloop, hres⟩
            rw [if_neg hline, if_neg hline]
            by_cases hlines : l.head? = some (byte '*')
            · rw [if_pos hlines, if_pos hlines]
              obtain ⟨k, rfl⟩ := List.head?_eq_some_iff.mp hlines
              obtain ⟨c', hskip, h'⟩ :=
                skipLines_spec (n := n) h.skip.skip (by simp only [List.length_cons] at hn; omega)
              have hlen := length_dropLines_le k
              obtain ⟨c'', hloop, hres⟩ := ih h' (by simp only [List.length_cons] at hn; omega)
              exact ⟨c'', (congrArg (· >>= loop n) hskip).trans hloop, hres⟩
            rw [if_neg hlines, if_neg hlines]
            exact ih h.skip hn
          rw [if_neg hb, if_neg hb]
          by_cases hquote : b = byte '"'
          · rw [if_pos hquote, if_pos hquote]
            obtain ⟨c', hcopy, h'⟩ := copyString_spec (h.put h.ne_zero) hn
            have hlen := length_splitString_le l
            obtain ⟨c'', hloop, hres⟩ := ih h' (by omega)
            refine ⟨c'', ?_, by simpa using hres⟩
            rw [minifyString, h.peek_cons]
            exact (congrArg (· >>= loop n) hcopy).trans hloop
          rw [if_neg hquote, if_neg hquote]
          simpa using ih (h.put h.ne_zero) hn

end Loops

end Minify

end CppJson
