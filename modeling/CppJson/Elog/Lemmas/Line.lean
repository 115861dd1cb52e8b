import CppJson.Elog.Logger
import CppJson.Libc.Lemmas.Digits
import CppJson.Lib.Scan

/-!
# The line in `log_buf`
-/

namespace CppJson

variable {mem : ℕ → UInt8} {l : LineBuf} {u : List UInt8} {c : ElogCall} {enabled : UInt64 → Bool}

theorem elogStrcpy_eq (n : ℕ) (src : List UInt8) :
    elogStrcpy n src = src.take (elogLineBufSize - n) := by
  induction src generalizing n with
  | nil => simp [elogStrcpy]
  | cons b src ih =>
      rw [elogStrcpy]
      split_ifs with h
      · rw [ih, show elogLineBufSize - n = elogLineBufSize - (n + 1) + 1 by omega, List.take_succ_cons]
      · rw [show elogLineBufSize - n = 0 by omega, List.take_zero]

/-- The first `log_len` bytes are `u`, and nothing was written behind `log_buf`. -/
structure LineBuf.Holds (mem : ℕ → UInt8) (l : LineBuf) (u : List UInt8) : Prop where
  length : l.logLen = u.length
  length_le : u.length ≤ elogLineBufSize
  content : cellsAt l.logBuf 0 u.length = u
  outside : ∀ j, elogLineBufSize ≤ j → l.logBuf j = mem j

theorem LineBuf.holds_nil : LineBuf.Holds mem ⟨mem, 0⟩ [] := ⟨rfl, Nat.zero_le _, rfl, fun _ _ => rfl⟩

/-- Bytes are written behind the line, as many as there is space for, and the first `n` of them
count. -/
theorem LineBuf.Holds.append (h : l.Holds mem u) {v : List UInt8} {n : ℕ} (hn : n ≤ v.length)
    (hfit : u.length + v.length ≤ elogLineBufSize) :
    LineBuf.Holds mem ⟨memcpy l.logBuf l.logLen v, u.length + n⟩ (u ++ v.take n) := by
  have hlen : (u ++ v.take n).length = u.length + n := by
    rw [List.length_append, List.length_take, Nat.min_eq_left hn]
  refine ⟨hlen.symm, by omega, ?_, ?_⟩
  · rw [hlen, h.length, cellsAt_memcpy (by omega) (by omega), h.content, Nat.add_sub_cancel_left]
  · intro j hj
    have hend : l.logLen + v.length ≤ j := by
      rw [h.length]
      omega
    exact (memcpy_of_ge hend).trans (h.outside j hj)

theorem LineBuf.Holds.strcpy (h : l.Holds mem u) (src : List UInt8) :
    (l.strcpy src).Holds mem ((u ++ src).take elogLineBufSize) := by
  have hle := h.length_le
  rw [LineBuf.strcpy, elogStrcpy_eq, h.length, List.take_append, List.take_of_length_le hle]
  obtain ⟨v, hv⟩ : ∃ v, v = src.take (elogLineBufSize - u.length) := ⟨_, rfl⟩
  have hlen : v.length ≤ elogLineBufSize - u.length := by
    rw [hv, List.length_take]
    omega
  have happend := h.append (v := v) (Nat.le_refl v.length) (by omega)
  rw [List.take_length, h.length] at happend
  rw [← hv]
  exact happend

/-- Strings copied one after the other are the strings put together, cut at the end of the
buffer. -/
theorem LineBuf.Holds.foldl (h : l.Holds mem u) (srcs : List (List UInt8)) :
    (srcs.foldl LineBuf.strcpy l).Holds mem ((u ++ srcs.flatten).take elogLineBufSize) := by
  induction srcs generalizing l u with
  | nil =>
      rw [List.flatten_nil, List.append_nil, List.take_of_length_le h.length_le]
      exact h
  | cons src srcs ih =>
      have hrest := ih (h.strcpy src)
      rw [take_take_append (Nat.le_refl _), List.append_assoc, ← List.flatten_cons] at hrest
      exact hrest

theorem LineBuf.Holds.reserve (h : l.Holds mem u) :
    l.reserve.Holds mem (u.take (elogLineBufSize - 1)) := by
  have hle := h.length_le
  rw [LineBuf.reserve, h.length]
  split_ifs with hfull
  · have hlen : (u.take (elogLineBufSize - 1)).length = elogLineBufSize - 1 := by
      rw [List.length_take]
      omega
    refine ⟨hlen.symm, by omega, ?_, h.outside⟩
    have hcontent := congrArg (List.take (elogLineBufSize - 1)) h.content
    rw [hlen]
    rw [cellsAt, ← List.map_take, List.take_range, Nat.min_eq_left (by omega)] at hcontent
    exact hcontent
  · rw [List.take_of_length_le (by omega)]
    exact h

/-- Text that does not fit is cut so that the newline sign has space. -/
theorem LineBuf.Holds.vsnprintf_reserve (h : l.Holds mem u) (text : CStr) :
    (l.vsnprintf (.text text)).reserve.Holds mem ((u ++ text.bytes).take (elogLineBufSize - 1)) := by
  have hle := h.length_le
  rw [LineBuf.vsnprintf, h.length]
  by_cases hroom : elogLineBufSize - u.length = 0
  · -- the header fills the buffer, and nothing of the text is written
    have hlen : (if u.length + text.bytes.length ≤ elogLineBufSize then u.length + text.bytes.length
        else elogLineBufSize) = u.length := by split_ifs <;> omega
    simp only [hroom, ↓reduceIte, hlen]
    rw [List.take_append_of_le_length (by omega)]
    exact LineBuf.Holds.reserve ⟨rfl, h.length_le, h.content, h.outside⟩
  · simp only [if_neg hroom]
    obtain ⟨v, hv⟩ : ∃ v, v = text.bytes.take (elogLineBufSize - u.length - 1) ++ [0] := ⟨_, rfl⟩
    have hvlen : v.length = min (elogLineBufSize - u.length - 1) text.bytes.length + 1 := by
      rw [hv, List.length_append, List.length_take, List.length_singleton]
    rw [← hv]
    by_cases hfit : u.length + text.bytes.length + 1 ≤ elogLineBufSize
    · -- the text fits together with the newline sign
      have htake : v.take text.bytes.length = text.bytes := by
        rw [hv, List.take_append_of_le_length (by rw [List.length_take]; omega), List.take_take,
          List.take_of_length_le (by omega)]
      have happend := h.append (v := v) (n := text.bytes.length) (by omega) (by omega)
      rw [h.length, htake] at happend
      rw [if_pos (by omega)]
      exact happend.reserve
    · have hlen : (if u.length + text.bytes.length ≤ elogLineBufSize then u.length + text.bytes.length
          else elogLineBufSize) = elogLineBufSize := by split_ifs <;> omega
      have htake : v.take (elogLineBufSize - 1 - u.length) =
          text.bytes.take (elogLineBufSize - 1 - u.length) := by
        rw [hv, List.take_append_of_le_length (by rw [List.length_take]; omega), List.take_take]
        congr 1
        omega
      have happend := h.append (v := v) (n := elogLineBufSize - 1 - u.length) (by omega) (by omega)
      rw [htake, h.length] at happend
      rw [hlen, LineBuf.reserve, if_pos (by simp), List.take_append, List.take_of_length_le (by omega)]
      rw [show u.length + (elogLineBufSize - 1 - u.length) = elogLineBufSize - 1 by omega] at happend
      exact happend

/-- A text that is written at the beginning. One that does not fit loses its end, and the NUL behind
it counts. -/
theorem LineBuf.vsnprintf_nil (text : CStr) :
    (LineBuf.vsnprintf ⟨mem, 0⟩ (.text text)).Holds mem
      (if text.bytes.length < elogLineBufSize then text.bytes
      else text.bytes.take (elogLineBufSize - 1) ++ [0]) := by
  obtain ⟨v, hv⟩ : ∃ v, v = text.bytes.take (elogLineBufSize - 1) ++ [0] := ⟨_, rfl⟩
  have hpos : 0 < elogLineBufSize := by decide
  have hnil : LineBuf.Holds mem ⟨mem, 0⟩ [] := LineBuf.holds_nil
  have hvlen : v.length = min (elogLineBufSize - 1) text.bytes.length + 1 := by
    rw [hv, List.length_append, List.length_take, List.length_singleton]
  rw [LineBuf.vsnprintf]
  simp only [Nat.sub_zero, if_neg hpos.ne', Nat.zero_add]
  rw [← hv]
  split_ifs with hle hlt hlt
  · have htake : v.take text.bytes.length = text.bytes := by
      rw [hv, List.take_append_of_le_length (by rw [List.length_take]; omega), List.take_take,
        List.take_of_length_le (by omega)]
    have happend := hnil.append (v := v) (n := text.bytes.length) (by omega) (by simp; omega)
    simpa [htake] using happend
  · have happend := hnil.append (v := v) (n := text.bytes.length) (by omega) (by simp; omega)
    rw [List.take_of_length_le (by omega)] at happend
    simpa using happend
  · omega
  · have happend := hnil.append (v := v) (n := elogLineBufSize) (by omega) (by simp; omega)
    rw [List.take_of_length_le (by omega)] at happend
    simpa using happend

theorem LineBuf.Holds.newline (h : l.Holds mem u) (hlt : u.length < elogLineBufSize) :
    (l.strcpy (ascii "\n")).Holds mem (u ++ ascii "\n") := by
  have hcopy := h.strcpy (ascii "\n")
  rwa [List.take_of_length_le] at hcopy
  rw [List.length_append]
  exact hlt

/-- A line whose text could not be formatted has the greatest length. -/
theorem LineBuf.Holds.vsnprintf_failed (h : l.Holds mem u) (rest : List UInt8) :
    ∃ v, v.length = elogLineBufSize - 1 ∧ (l.vsnprintf (.failed rest)).reserve.Holds mem v := by
  rw [LineBuf.vsnprintf, LineBuf.reserve, if_pos (by simp)]
  refine ⟨cellsAt (memcpy l.logBuf l.logLen (rest.take (elogLineBufSize - l.logLen))) 0
    (elogLineBufSize - 1), by simp, by simp, by simp, by simp, ?_⟩
  intro j hj
  have hle := h.length_le
  have hend : l.logLen + (rest.take (elogLineBufSize - l.logLen)).length ≤ j := by
    rw [List.length_take, h.length]
    omega
  exact (memcpy_of_ge hend).trans (h.outside j hj)

/-! ## No NUL in the line -/

/-- No NUL in any of the strings. -/
def NulFree (srcs : List (List UInt8)) : Prop := ∀ src ∈ srcs, 0 ∉ src

section

variable {a b : List (List UInt8)} {src : List UInt8} {p : Prop} [Decidable p]

theorem nulFree_nil : NulFree [] := by simp [NulFree]

theorem nulFree_singleton : NulFree [src] ↔ 0 ∉ src := by simp [NulFree]

theorem nulFree_append : NulFree (a ++ b) ↔ NulFree a ∧ NulFree b := by
  simp [NulFree, or_imp, forall_and]

theorem nulFree_ite : NulFree (if p then a else b) ↔ (p → NulFree a) ∧ (¬p → NulFree b) := by
  split_ifs with h <;> simp [h]

end

theorem nul_free_levelOutputInfo (level : UInt8) : 0 ∉ levelOutputInfo level := by
  rw [levelOutputInfo]
  split <;> decide

theorem nul_free_sprintfD (n : ℤ) : 0 ∉ sprintfD n := by
  have hdigits : 0 ∉ decDigits n.natAbs := fun h => by simpa [isDigit] using isDigit_of_mem_decDigits h
  rw [sprintfD]
  split_ifs
  · simp only [List.mem_cons, not_or]
    exact ⟨by decide, hdigits⟩
  · exact hdigits

theorem nulFree_header : NulFree (c.header enabled) := by
  have hline : 0 ∉ (sprintfD c.line).take (elogLineNumMaxLen - 1) := fun h =>
    nul_free_sprintfD c.line (List.mem_of_mem_take h)
  have hspaces : ∀ n, 0 ∉ List.replicate n (byte ' ') := by simp [List.mem_replicate]
  have hsigns : 0 ∉ ascii " " ∧ 0 ∉ ascii "[" ∧ 0 ∉ ascii "] " ∧ 0 ∉ ascii "(" ∧ 0 ∉ ascii ":" ∧
      0 ∉ ascii ")" := by decide
  simp only [ElogCall.header, nulFree_append, nulFree_ite, nulFree_singleton, nulFree_nil,
    nul_free_levelOutputInfo, c.tag.nul_free, c.file.nul_free, c.func.nul_free,
    c.port.time.nul_free, c.port.pInfo.nul_free, c.port.tInfo.nul_free, hline, hspaces, hsigns,
    not_false_eq_true, implies_true, and_true]

theorem nul_free_line {text : CStr} {n : ℕ} :
    0 ∉ ((c.header enabled).flatten ++ text.bytes).take n := by
  intro h
  rcases List.mem_append.mp (List.mem_of_mem_take h) with h | h
  · obtain ⟨src, hsrc, hzero⟩ := List.mem_flatten.mp h
    exact nulFree_header src hsrc hzero
  · exact text.nul_free h

/-- The keyword is looked for in the line. -/
theorem LineBuf.Holds.hasKeyword (h : l.Holds mem u) (hzero : 0 ∉ u) (keyword : CStr) :
    l.hasKeyword keyword = decide (keyword.bytes <:+: u) := by
  have hcells : cellsAt (memcpy l.logBuf l.logLen [0]) 0 (l.logLen + 1) = u ++ [0] := by
    rw [cellsAt_memcpy (Nat.le_add_right _ _) (by simp), h.length, h.content, Nat.add_sub_cancel_left]
    rfl
  have hbytes : ∀ b ∈ u, decide (b ≠ 0) := fun b hb => decide_eq_true fun he => hzero (he ▸ hb)
  have hcstr : (cstr (u ++ [0])).bytes = u := takeWhile_append_stop hbytes (stops_cons.mpr rfl)
  rw [LineBuf.hasKeyword, hcells, strstr, hcstr]
  by_cases hk : keyword.bytes = []
  · simp [hk, List.nil_infix]
  · simp [hk]

end CppJson
