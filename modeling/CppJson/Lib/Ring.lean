import CppJson.Lib.Cells

/-!
# Circular arrays

A queue in an array of `size` cells begins at some cell and goes on at the first one behind the
last. What is put in behind it is copied in two pieces (`Window.append`).
-/

namespace CppJson

variable {α : Type} {buf : ℕ → α} {size start i n : ℕ} {q l : List α}

/-- The cell that an index behind the end stands for. -/
def wrap (size i : ℕ) : ℕ := if i < size then i else i - size

theorem wrap_lt (h : i < 2 * size) : wrap size i < size := by
  unfold wrap
  split <;> omega

theorem wrap_of_lt (h : i < size) : wrap size i = i := if_pos h

theorem wrap_of_ge (h : size ≤ i) : wrap size i = i - size := if_neg (Nat.not_lt.mpr h)

theorem wrap_wrap_add (h : i + n < 2 * size) : wrap size (wrap size i + n) = wrap size (i + n) := by
  unfold wrap
  split_ifs <;> omega

/-- The queue `q` begins at `start`. -/
def Window (size : ℕ) (buf : ℕ → α) (start : ℕ) (q : List α) : Prop :=
  ∀ i b, q[i]? = some b → buf (wrap size (start + i)) = b

namespace Window

theorem nil : Window size buf start [] := by
  intro i b h
  simp at h

/-- What is taken out at the front leaves the rest where it is. -/
theorem drop (h : Window size buf start q) (hstart : start < size) (hq : q.length ≤ size) :
    Window size buf (wrap size (start + n)) (q.drop n) := by
  intro i b hi
  rw [List.getElem?_drop] at hi
  have hlt := (List.getElem?_eq_some_iff.mp hi).1
  rw [wrap_wrap_add (by omega), Nat.add_assoc]
  exact h _ b hi

/-- The part of the queue in front of the end of the array. -/
theorem cellsAt_eq (h : Window size buf start q) (hn : n ≤ q.length) (hend : start + n ≤ size) :
    cellsAt buf start n = q.take n := by
  refine List.ext_getElem? fun i => ?_
  rw [cellsAt, List.getElem?_map, List.getElem?_take]
  by_cases hi : i < n
  · obtain ⟨b, hb⟩ : ∃ b, q[i]? = some b := ⟨_, List.getElem?_eq_getElem (by omega)⟩
    have hcell := h i b hb
    rw [wrap_of_lt (by omega)] at hcell
    rw [if_pos hi, hb, List.getElem?_range hi, Option.map_some, hcell]
  · rw [if_neg hi, List.getElem?_eq_none (by simpa using hi), Option.map_none]

/-- The part of the queue from the beginning of the array on. -/
theorem cellsAt_wrapped (h : Window size buf start q) (hstart : start < size)
    (hn : size - start + n ≤ q.length) (hq : q.length ≤ size) :
    cellsAt buf 0 n = (q.drop (size - start)).take n := by
  have hrest := h.drop hstart hq (n := size - start)
  rw [show start + (size - start) = size by omega, wrap_of_ge (Nat.le_refl size), Nat.sub_self] at hrest
  exact hrest.cellsAt_eq (by rw [List.length_drop]; omega) (by omega)

/-- What is put in behind the queue is copied in two pieces, the second one to the beginning of the
array. -/
theorem append (h : Window size buf start q) (hstart : start < size) (hl : q.length + l.length ≤ size) :
    Window size
      (memcpy (memcpy buf (wrap size (start + q.length))
      (l.take (size - wrap size (start + q.length)))) 0
        (l.drop (size - wrap size (start + q.length))))
      start (q ++ l) := by
  obtain ⟨w, hw⟩ : ∃ w, w = wrap size (start + q.length) := ⟨_, rfl⟩
  rw [← hw]
  intro i b hi
  have hcell : wrap size (start + i) < size := wrap_lt (by
    have := (List.getElem?_eq_some_iff.mp hi).1
    rw [List.length_append] at this
    omega)
  rcases Nat.lt_or_ge i q.length with hlt | hge
  · -- a cell of the old queue is not written to
    rw [List.getElem?_append_left hlt] at hi
    rw [memcpy_of_ge, ← h i b hi]
    · by_cases hbelow : wrap size (start + i) < w
      · exact memcpy_of_lt hbelow
      · refine memcpy_of_ge ?_
        rw [List.length_take]
        unfold wrap at *
        split_ifs at * <;> omega
    · rw [Nat.zero_add, List.length_drop]
      unfold wrap at *
      split_ifs at * <;> omega
  · rw [List.getElem?_append_right hge] at hi
    have hlt := (List.getElem?_eq_some_iff.mp hi).1
    by_cases hfront : i - q.length < size - w
    · have hi' : (l.take (size - w))[i - q.length]? = some b := by
        rw [List.getElem?_take, if_pos hfront, hi]
      have hcell : wrap size (start + i) = w + (i - q.length) := by
        unfold wrap at *
        split_ifs at * <;> omega
      rw [memcpy_of_ge, hcell, memcpy_of_mem hi']
      rw [hcell, Nat.zero_add, List.length_drop]
      unfold wrap at *
      split_ifs at * <;> omega
    · have hi' : (l.drop (size - w))[i - q.length - (size - w)]? = some b := by
        rw [List.getElem?_drop, show size - w + (i - q.length - (size - w)) = i - q.length by omega, hi]
      have hcell : wrap size (start + i) = 0 + (i - q.length - (size - w)) := by
        unfold wrap at *
        split_ifs at * <;> omega
      rw [hcell, memcpy_of_mem hi']

end Window

end CppJson
