import Mathlib.Tactic.Common
import Mathlib.Data.List.Basic

/-!
# Climbing a forest

`parent` gives a node at most one node above it. What is left of two climbs out of different nodes,
once their common part is taken away, ends under the nearest common ancestor
(`nearest_of_disjoint`).
-/

namespace CppJson

variable {α : Type}

/-- The nodes on the way from `a` up to `c`, without `c`. -/
inductive Climb (parent : α → Option α) : α → List α → α → Prop where
  | nil {a} : Climb parent a [] a
  | cons {a b c l} : parent a = some b → Climb parent b l c → Climb parent a (a :: l) c

variable {parent : α → Option α} {a b c : α} {l l' : List α}

namespace Climb

theorem append (h : Climb parent a l b) (h' : Climb parent b l' c) : Climb parent a (l ++ l') c := by
  induction h with
  | nil => exact h'
  | cons hp _ ih => exact .cons hp (ih h')

theorem snoc (h : Climb parent a l b) (hp : parent b = some c) : Climb parent a (l ++ [b]) c :=
  h.append (.cons hp .nil)

/-- Of two climbs out of one node, one goes on where the other ends. -/
theorem linear (h : Climb parent a l b) (h' : Climb parent a l' c) :
    (∃ k, l' = l ++ k ∧ Climb parent b k c) ∨ ∃ k, l = l' ++ k ∧ Climb parent c k b := by
  induction h generalizing l' with
  | nil => exact .inl ⟨l', rfl, h'⟩
  | @cons a b' b l hp h ih =>
      cases h' with
      | nil => exact .inr ⟨_, rfl, .cons hp h⟩
      | cons hp' h' =>
          obtain rfl : b' = _ := Option.some.inj (hp.symm.trans hp')
          rcases ih h' with ⟨k, rfl, hk⟩ | ⟨k, rfl, hk⟩
          · exact .inl ⟨k, rfl, hk⟩
          · exact .inr ⟨k, rfl, hk⟩

theorem eq_of_nil (h : Climb parent a [] b) : a = b := by
  cases h
  rfl

theorem head_mem (h : Climb parent a l b) (hne : l ≠ []) : a ∈ l := by
  cases h with
  | nil => exact absurd rfl hne
  | cons => exact List.mem_cons_self

theorem parent_mem (h : Climb parent a l c) {x : α} (hx : x ∈ l) : ∃ y, parent x = some y := by
  induction h with
  | nil => simp at hx
  | cons hp _ ih =>
      rcases List.mem_cons.mp hx with rfl | hx
      · exact ⟨_, hp⟩
      · exact ih hx

theorem congr {parent' : α → Option α} (h : Climb parent a l c) (hl : ∀ x ∈ l, parent' x = parent x) :
    Climb parent' a l c := by
  induction h with
  | nil => exact .nil
  | cons hp _ ih =>
      rw [List.forall_mem_cons] at hl
      exact .cons (hl.1.trans hp) (ih hl.2)

end Climb

/-! ## Levels -/

/-- Every node is one level below its parent. -/
def Ranked (parent : α → Option α) (level : α → ℕ) : Prop :=
  ∀ a b, parent a = some b → level a = level b + 1

variable {level : α → ℕ}

theorem Climb.level_eq (hr : Ranked parent level) (h : Climb parent a l c) :
    level a = level c + l.length := by
  induction h with
  | nil => rfl
  | cons hp _ ih =>
      rw [hr _ _ hp, ih, List.length_cons]
      omega

theorem Climb.level_mem (hr : Ranked parent level) (h : Climb parent a l c) :
    ∀ x ∈ l, level c < level x ∧ level x ≤ level a := by
  induction h with
  | nil => simp
  | cons hp h ih =>
      have hlevel := h.level_eq hr
      have hstep := hr _ _ hp
      intro x hx
      rcases List.mem_cons.mp hx with rfl | hx
      · omega
      · have := ih x hx
        omega

/-- A climb is given by its ends. -/
theorem Climb.unique (hr : Ranked parent level) (h : Climb parent a l c)
    (h' : Climb parent a l' c) :
    l = l' := by
  have hlen : l.length = l'.length := by
    have := h.level_eq hr
    have := h'.level_eq hr
    omega
  rcases h.linear h' with ⟨k, rfl, -⟩ | ⟨k, rfl, -⟩
  · have hk : k = [] := List.eq_nil_of_length_eq_zero (by simpa using hlen)
    simp [hk]
  · have hk : k = [] := List.eq_nil_of_length_eq_zero (by simpa using hlen)
    simp [hk]

/-- The nodes on a climb are different. -/
theorem Climb.nodup (hr : Ranked parent level) (h : Climb parent a l c) : l.Nodup := by
  induction h with
  | nil => exact List.nodup_nil
  | cons hp h ih =>
      refine List.nodup_cons.mpr ⟨fun hmem => ?_, ih⟩
      have := (h.level_mem hr _ hmem).2
      have := hr _ _ hp
      omega

/-! ## The nearest common ancestor -/

/-- A node above both others that is below every other node above both. -/
structure Nearest (parent : α → Option α) (a b c : α) : Prop where
  left : ∃ l, Climb parent a l c
  right : ∃ l, Climb parent b l c
  least : ∀ d l l', Climb parent a l d → Climb parent b l' d → ∃ k, Climb parent c k d

theorem nearest_of_disjoint (ha : Climb parent a l c) (hb : Climb parent b l' c)
    (hdisj : l.Disjoint l') :
    Nearest parent a b c := by
  refine ⟨⟨l, ha⟩, ⟨l', hb⟩, fun d k k' hk hk' => ?_⟩
  rcases ha.linear hk with ⟨j, -, hj⟩ | ⟨j, rfl, hj⟩
  · exact ⟨j, hj⟩
  rcases hb.linear hk' with ⟨j', -, hj'⟩ | ⟨j', rfl, hj'⟩
  · exact ⟨j', hj'⟩
  -- below `c` the climbs have nothing in common, so `d` is `c` itself
  by_cases hnil : j = []
  · subst hnil
    exact ⟨[], hj.eq_of_nil ▸ .nil⟩
  by_cases hnil' : j' = []
  · subst hnil'
    exact ⟨[], hj'.eq_of_nil ▸ .nil⟩
  exact absurd (List.mem_append_right k' (hj'.head_mem hnil'))
    (hdisj (List.mem_append_right k (hj.head_mem hnil)))

end CppJson
