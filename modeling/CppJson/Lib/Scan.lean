import Mathlib.Data.List.TakeWhile

/-!
# What a scanner takes and what it leaves
-/

namespace CppJson

variable {α : Type} {p : α → Bool} {l k : List α}

/-- A text at which a scan for `p` ends. -/
def Stops (p : α → Bool) (k : List α) : Prop := ∀ a ∈ k.head?, p a = false

theorem stops_nil : Stops p [] := by simp [Stops]

theorem stops_cons {a : α} : Stops p (a :: k) ↔ p a = false := by simp [Stops]

theorem Stops.take (h : Stops p k) (n : ℕ) : Stops p (k.take n) := by
  cases k with
  | nil => simpa using stops_nil
  | cons a k =>
      cases n with
      | zero => exact stops_nil
      | succ n => exact stops_cons.mpr (stops_cons.mp h)

theorem Stops.append (hl : ∀ a ∈ l.head?, p a = false) (hk : Stops p k) : Stops p (l ++ k) := by
  cases l with
  | nil => exact hk
  | cons a l => exact hl

theorem takeWhile_append_stop (hl : ∀ a ∈ l, p a) (hk : Stops p k) : (l ++ k).takeWhile p = l := by
  rw [List.takeWhile_append_of_pos hl]
  cases k with
  | nil => simp
  | cons a k => simp [stops_cons.mp hk]

theorem takeWhile_append_of_mem {a : α} (ha : a ∈ l) (hp : p a = false) :
    (l ++ k).takeWhile p = l.takeWhile p := by
  induction l with
  | nil => cases ha
  | cons x xs ih =>
      by_cases hx : p x
      · have hxs : a ∈ xs := (List.mem_cons.mp ha).resolve_left fun h => by simp [← h, hp] at hx
        simp [hx, ih hxs]
      · simp [hx]

theorem dropWhile_append_stop (hl : ∀ a ∈ l, p a) (hk : Stops p k) : (l ++ k).dropWhile p = k := by
  rw [List.dropWhile_append_of_pos hl]
  cases k with
  | nil => simp
  | cons a k => simp [stops_cons.mp hk]

theorem take_take_append {m n : ℕ} (h : m ≤ n) : (l.take n ++ k).take m = (l ++ k).take m := by
  rw [List.take_append, List.take_append, List.take_take, Nat.min_eq_left h, List.length_take]
  congr 2
  omega

/-- A list is split at the first place where a scan ends. -/
theorem exists_first {a : α} (ha : a ∈ l) (hp : p a = false) :
    ∃ l₁ b l₂, l = l₁ ++ b :: l₂ ∧ (∀ c ∈ l₁, p c) ∧ p b = false := by
  induction l with
  | nil => cases ha
  | cons x xs ih =>
      cases hx : p x with
      | false => exact ⟨[], x, xs, rfl, by simp, hx⟩
      | true =>
          have hxs : a ∈ xs := (List.mem_cons.mp ha).resolve_left fun h => by simp [← h, hp] at hx
          obtain ⟨l₁, b, l₂, rfl, hl₁, hb⟩ := ih hxs
          exact ⟨x :: l₁, b, l₂, rfl, List.forall_mem_cons.mpr ⟨hx, hl₁⟩, hb⟩

end CppJson
