import Mathlib.Tactic.Common

/-!
# Replace the first match, or append

`upsert p a` puts `a` in the place of the first element that satisfies `p`, or at the end when there
is none.
-/

namespace CppJson

variable {α : Type} {p : α → Bool} {a b : α} {l : List α}

def upsert (p : α → Bool) (a : α) : List α → List α
  | [] => [a]
  | x :: xs => if p x then a :: xs else x :: upsert p a xs

theorem upsert_of_none (h : ∀ x ∈ l, p x = false) : upsert p a l = l ++ [a] := by
  induction l with
  | nil => rfl
  | cons x xs ih =>
      rw [upsert, if_neg (by simp [h x List.mem_cons_self]),
        ih fun y hy => h y (List.mem_cons_of_mem _ hy)]
      rfl

theorem upsert_append_cons {pre post : List α} {x : α} (hpre : ∀ y ∈ pre, p y = false) (hx : p x) :
    upsert p a (pre ++ x :: post) = pre ++ a :: post := by
  induction pre with
  | nil => simp [upsert, hx]
  | cons y ys ih =>
      rw [List.cons_append, upsert, if_neg (by simp [hpre y List.mem_cons_self]),
        ih fun z hz => hpre z (List.mem_cons_of_mem _ hz)]
      rfl

theorem upsert_eq_findIdx (p : α → Bool) (a : α) (l : List α) :
    upsert p a l =
      match l.findIdx? p with
      | none => l ++ [a]
      | some i => l.set i a := by
  induction l with
  | nil => rfl
  | cons x xs ih =>
      rw [upsert, List.findIdx?_cons]
      by_cases hx : p x
      · simp [hx]
      · rw [if_neg hx, if_neg hx, ih]
        cases xs.findIdx? p <;> rfl

/-- The value put last is the one that counts. -/
theorem upsert_upsert (ha : p a) : upsert p b (upsert p a l) = upsert p b l := by
  induction l with
  | nil => simp [upsert, ha]
  | cons x xs ih =>
      by_cases hx : p x
      · simp [upsert, hx, ha]
      · simp [upsert, hx, ih]

theorem find?_upsert (ha : p a) : (upsert p a l).find? p = some a := by
  induction l with
  | nil => simp [upsert, ha]
  | cons x xs ih =>
      by_cases hx : p x
      · simp [upsert, hx, ha]
      · simp [upsert, hx, ih]

theorem mem_upsert {x : α} (h : x ∈ upsert p a l) : x = a ∨ x ∈ l := by
  induction l with
  | nil => exact .inl (List.mem_singleton.mp h)
  | cons y ys ih =>
      rw [upsert] at h
      split at h
      · rcases List.mem_cons.mp h with rfl | h
        · exact .inl rfl
        · exact .inr (List.mem_cons_of_mem _ h)
      · rcases List.mem_cons.mp h with rfl | h
        · exact .inr List.mem_cons_self
        · exact (ih h).imp_right (List.mem_cons_of_mem _)

/-- Seen through a filter that drops the value put, the first match is removed. -/
theorem filter_upsert {q : α → Bool} (ha : q a = false) :
    (upsert p a l).filter q = (l.eraseP p).filter q := by
  induction l with
  | nil => simp [upsert, ha]
  | cons x xs ih =>
      by_cases hx : p x
      · simp [upsert, hx, ha]
      · simp [upsert, hx, List.filter_cons, ih]

/-- An element with a property of its own is gained unless it takes the place of another one. -/
theorem countP_upsert {q : α → Bool} (ha : q a) :
    (upsert p a l).countP q = l.countP q + if (l.find? p).any q then 0 else 1 := by
  induction l with
  | nil => simp [upsert, ha]
  | cons x xs ih =>
      by_cases hx : p x
      · by_cases hq : q x <;> simp [upsert, hx, ha, hq]
      · simp only [upsert, hx, Bool.false_eq_true, ↓reduceIte, List.countP_cons, ih, List.find?_cons]
        omega

theorem eraseP_upsert (ha : p a) : (upsert p a l).eraseP p = l.eraseP p := by
  induction l with
  | nil => simp [upsert, ha]
  | cons x xs ih =>
      by_cases hx : p x
      · simp [upsert, hx, ha]
      · simp [upsert, hx, ih]

end CppJson
