import Mathlib.Tactic.Common
import Mathlib.Data.List.Basic

/-!
# The cells of an array
-/

namespace CppJson

variable {α : Type}

/-- The bytes `l` are copied to `buf + i`. -/
def memcpy (buf : ℕ → α) (i : ℕ) (l : List α) : ℕ → α :=
  fun j => if i ≤ j then (l[j - i]?).getD (buf j) else buf j

/-- The `n` cells at `buf + i`. -/
def cellsAt (buf : ℕ → α) (i n : ℕ) : List α := (List.range n).map fun k => buf (i + k)

variable {buf : ℕ → α} {i j n : ℕ} {l : List α}

theorem memcpy_of_lt (h : j < i) : memcpy buf i l j = buf j := if_neg (Nat.not_le.mpr h)

theorem memcpy_of_ge (h : i + l.length ≤ j) : memcpy buf i l j = buf j := by
  rw [memcpy, if_pos (by omega), List.getElem?_eq_none (by omega), Option.getD_none]

theorem memcpy_of_mem {b : α} (h : l[j]? = some b) : memcpy buf i l (i + j) = b := by
  rw [memcpy, if_pos (Nat.le_add_right i j), Nat.add_sub_cancel_left, h, Option.getD_some]

@[simp] theorem memcpy_nil (buf : ℕ → α) (i : ℕ) : memcpy buf i [] = buf := by
  funext j
  simp [memcpy]

@[simp] theorem length_cellsAt (buf : ℕ → α) (i n : ℕ) : (cellsAt buf i n).length = n := by
  simp [cellsAt]

theorem getElem?_cellsAt (h : j < n) : (cellsAt buf i n)[j]? = some (buf (i + j)) := by
  rw [cellsAt, List.getElem?_map, List.getElem?_range h, Option.map_some]

/-- What is copied behind the first `i` cells follows them. -/
theorem cellsAt_memcpy (hn : i ≤ n) (h : n ≤ i + l.length) :
    cellsAt (memcpy buf i l) 0 n = cellsAt buf 0 i ++ l.take (n - i) := by
  refine List.ext_getElem? fun j => ?_
  by_cases hj : j < n
  · rw [getElem?_cellsAt hj, Nat.zero_add]
    rcases Nat.lt_or_ge j i with hlt | hge
    · rw [memcpy_of_lt hlt, List.getElem?_append_left (by rwa [length_cellsAt]),
        getElem?_cellsAt hlt, Nat.zero_add]
    · obtain ⟨k, rfl⟩ := Nat.exists_eq_add_of_le hge
      have hk : k < l.length := by omega
      rw [memcpy_of_mem (List.getElem?_eq_getElem hk),
        List.getElem?_append_right (by rw [length_cellsAt]; omega), length_cellsAt,
        Nat.add_sub_cancel_left, List.getElem?_take, if_pos (by omega), List.getElem?_eq_getElem hk]
  · rw [List.getElem?_eq_none (by rw [length_cellsAt]; omega), List.getElem?_eq_none]
    rw [List.length_append, length_cellsAt, List.length_take]
    omega

end CppJson
