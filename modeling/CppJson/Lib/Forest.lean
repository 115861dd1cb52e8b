import Mathlib.Tactic.Common
import Mathlib.Logic.Relation
import Mathlib.Logic.Function.Basic
import Mathlib.Algebra.Order.BigOperators.Group.List
import Mathlib.Algebra.Order.Ring.Nat

/-!
# Forests of ordered trees

`children` gives the nodes under a node in their order. In a forest each node is in one place, and
one can go down from a node only so many times.
-/

namespace CppJson

variable {α : Type}

/-- The node `x` is `p` or somewhere under it. -/
def Within (children : α → List α) : α → α → Prop := Relation.ReflTransGen fun x p => x ∈ children p

/-- The forest without the tree of `x`. -/
noncomputable def prune (children : α → List α) (x : α) : α → List α :=
  open Classical in fun p => if Within children p x then [] else children p

structure Forest (alive : α → Prop) (children : α → List α) : Prop where
  nodup : ∀ p, (children p).Nodup
  unique : ∀ x p q, x ∈ children p → x ∈ children q → p = q
  alive : ∀ x p, x ∈ children p → alive x ∧ alive p
  ranked : ∃ rank : α → ℕ, ∀ x p, x ∈ children p → rank x < rank p

variable {alive : α → Prop} {children children' : α → List α} {a b p x y : α} {l : List α}

theorem Within.rank_le {rank : α → ℕ} (hr : ∀ x p, x ∈ children p → rank x < rank p)
    (h : Within children x p) :
    rank x ≤ rank p := by
  induction h with
  | refl => exact le_rfl
  | tail _ hq ih => exact ih.trans (hr _ _ hq).le

/-- Under a node there is the node itself and what is under its children. -/
theorem within_iff : Within children x p ↔ x = p ∨ ∃ c ∈ children p, Within children x c := by
  constructor
  · intro h
    cases Relation.ReflTransGen.cases_tail h with
    | inl heq => exact .inl heq.symm
    | inr h =>
        obtain ⟨c, hxc, hc⟩ := h
        exact .inr ⟨c, hc, hxc⟩
  · rintro (rfl | ⟨c, hc, hxc⟩)
    · exact .refl
    · exact hxc.tail hc

/-- What is under a node depends on nothing but the nodes under it. -/
theorem within_congr (h : ∀ b, Within children b p → children' b = children b) :
    Within children' x p ↔ Within children x p := by
  constructor
  · intro hx
    induction hx using Relation.ReflTransGen.head_induction_on with
    | refl => exact .refl
    | head hstep _ ih => exact .head (h _ ih ▸ hstep) ih
  · intro hx
    induction hx using Relation.ReflTransGen.head_induction_on with
    | refl => exact .refl
    | head hstep hx ih => exact .head ((h _ hx).symm ▸ hstep) ih

namespace Forest

/-- No node is under its own child. -/
theorem not_within (h : Forest alive children) (hx : x ∈ children p) : ¬Within children p x := by
  obtain ⟨rank, hr⟩ := h.ranked
  intro hw
  have := hw.rank_le hr
  have := hr x p hx
  omega

theorem alive_of_within (h : Forest alive children) (hp : alive p) (hx : Within children x p) :
    alive x := by
  cases Relation.ReflTransGen.cases_head hx with
  | inl heq => exact heq ▸ hp
  | inr hx =>
      obtain ⟨q, hq, -⟩ := hx
      exact (h.alive x q hq).1

/-- Of two nodes with something in common under them, one is under the other. -/
theorem comparable (h : Forest alive children) (hx : Within children a x) (hy : Within children a y) :
    Within children x y ∨ Within children y x :=
  Relation.ReflTransGen.total_of_right_unique (r := fun x p => x ∈ children p)
    (fun x p q hp hq => h.unique x p q hp hq) hx hy

/-- The trees under two children of a node have nothing in common. -/
theorem eq_of_within (h : Forest alive children) (ha : a ∈ children p) (hb : b ∈ children p)
    (hxa : Within children x a) (hxb : Within children x b) : a = b := by
  have hbelow : ∀ {c d}, c ∈ children p → d ∈ children p → Within children c d → c = d := by
    intro c d hc hd hcd
    cases Relation.ReflTransGen.cases_head hcd with
    | inl heq => exact heq
    | inr hcd =>
        obtain ⟨q, hq, hqd⟩ := hcd
        obtain rfl := h.unique c q p hq hc
        exact absurd hqd (h.not_within hd)
  rcases h.comparable hxa hxb with hab | hba
  · exact hbelow ha hb hab
  · exact (hbelow hb ha hba).symm

/-- A node that is nobody's child is under itself only. -/
theorem eq_of_within_root (hroot : ∀ q, x ∉ children q) (hx : Within children x p) : x = p := by
  cases Relation.ReflTransGen.cases_head hx with
  | inl heq => exact heq
  | inr hx =>
      obtain ⟨q, hq, -⟩ := hx
      exact absurd hq (hroot q)

/-! ### Changes -/

/-- The children of `p` change; those that are new had no place and do not hold `p`. -/
theorem update [DecidableEq α] (h : Forest alive children) (hp : alive p) (hnodup : l.Nodup)
    (halive : ∀ x ∈ l, alive x)
    (hnew : ∀ x ∈ l, x ∈ children p ∨ (∀ q, x ∉ children q) ∧ ¬Within children p x) :
    Forest alive (Function.update children p l) := by
  have hcases : ∀ x q, x ∈ Function.update children p l q → q = p ∧ x ∈ l ∨ q ≠ p ∧ x ∈ children q := by
    intro x q hx
    by_cases hq : q = p
    · subst hq
      exact .inl ⟨rfl, by simpa using hx⟩
    · exact .inr ⟨hq, by simpa [hq] using hx⟩
  have hother : ∀ x q, x ∈ l → q ≠ p → x ∉ children q := by
    intro x q hx hq hxq
    rcases hnew x hx with hxp | ⟨hroot, -⟩
    · exact hq (h.unique x q p hxq hxp)
    · exact hroot q hxq
  constructor
  · intro q
    by_cases hq : q = p
    · subst hq
      simpa using hnodup
    · simpa [hq] using h.nodup q
  · intro x q r hxq hxr
    rcases hcases x q hxq with ⟨rfl, hx⟩ | ⟨hq, hx⟩ <;>
      rcases hcases x r hxr with ⟨rfl, hx'⟩ | ⟨hr, hx'⟩
    · rfl
    · exact absurd hx' (hother x r hx hr)
    · exact absurd hx (hother x q hx' hq)
    · exact h.unique x q r hx hx'
  · intro x q hxq
    rcases hcases x q hxq with ⟨rfl, hx⟩ | ⟨-, hx⟩
    · exact ⟨halive x hx, hp⟩
    · exact h.alive x q hx
  · -- `p` and the nodes above it move up by more than the rank of any child
    classical
    obtain ⟨rank, hr⟩ := h.ranked
    obtain ⟨top, htop⟩ : ∃ top, ∀ x ∈ l, rank x ≤ top := by
      refine ⟨(l.map rank).sum, fun x hx => List.single_le_sum (by simp) _ (List.mem_map_of_mem hx)⟩
    refine ⟨fun q => if Within children p q then rank q + top + 1 else rank q, fun x q hxq => ?_⟩
    rcases hcases x q hxq with ⟨rfl, hx⟩ | ⟨-, hx⟩
    · have hpx : ¬Within children q x := by
        rcases hnew x hx with hxp | ⟨-, hpx⟩
        · exact h.not_within hxp
        · exact hpx
      have hpp : Within children q q := .refl
      have := htop x hx
      simp only [hpx, hpp, ↓reduceIte]
      omega
    · have hlt := hr x q hx
      by_cases hpx : Within children p x
      · have hpq : Within children p q := hpx.tail hx
        simp only [hpx, hpq, ↓reduceIte]
        omega
      · simp only [hpx, ↓reduceIte]
        split
        · omega
        · exact hlt

/-- Two forests beside each other. -/
theorem union {alive' : α → Prop} (h : Forest alive children) (h' : Forest alive' children')
    (hdisj : ∀ a, alive a → ¬alive' a) :
    Forest (fun a => alive a ∨ alive' a) fun p => children p ++ children' p := by
  constructor
  · intro p
    refine List.nodup_append.mpr ⟨h.nodup p, h'.nodup p, ?_⟩
    rintro x hx _ hx' rfl
    exact hdisj x (h.alive x p hx).1 (h'.alive x p hx').1
  · intro x p q hp hq
    rcases List.mem_append.mp hp with hp | hp <;> rcases List.mem_append.mp hq with hq | hq
    · exact h.unique x p q hp hq
    · exact absurd (h'.alive x q hq).1 (hdisj x (h.alive x p hp).1)
    · exact absurd (h'.alive x p hp).1 (hdisj x (h.alive x q hq).1)
    · exact h'.unique x p q hp hq
  · intro x p hx
    rcases List.mem_append.mp hx with hx | hx
    · exact (h.alive x p hx).imp .inl .inl
    · exact (h'.alive x p hx).imp .inr .inr
  · classical
    obtain ⟨rank, hr⟩ := h.ranked
    obtain ⟨rank', hr'⟩ := h'.ranked
    refine ⟨fun a => if alive a then rank a else rank' a, fun x p hx => ?_⟩
    rcases List.mem_append.mp hx with hx | hx
    · obtain ⟨hax, hap⟩ := h.alive x p hx
      simpa only [hax, hap, ↓reduceIte] using hr x p hx
    · obtain ⟨hax, hap⟩ := h'.alive x p hx
      have hold : ∀ a, alive' a → ¬alive a := fun a ha' ha => hdisj a ha ha'
      simpa only [hold x hax, hold p hap, ↓reduceIte] using hr' x p hx

/-- What is not in a forest has nothing under it. -/
theorem children_eq_nil (h : Forest alive children) (hp : ¬alive p) : children p = [] :=
  List.eq_nil_iff_forall_not_mem.mpr fun x hx => hp (h.alive x p hx).2

/-- Nodes without children are put beside a forest. -/
theorem mono {alive' : α → Prop} (h : Forest alive children) (halive : ∀ a, alive a → alive' a) :
    Forest alive' children :=
  ⟨h.nodup, h.unique, fun x p hx => (h.alive x p hx).imp (halive x) (halive p), h.ranked⟩

/-- Whole trees disappear. -/
theorem prune (h : Forest alive children) {gone : α → Prop} [DecidablePred gone]
    (hdown : ∀ x p, x ∈ children p → (gone x ↔ gone p)) :
    Forest (fun x => alive x ∧ ¬gone x) fun p => if gone p then [] else children p := by
  have hmem : ∀ x p, x ∈ (if gone p then [] else children p) → ¬gone p ∧ x ∈ children p := by
    intro x p hx
    split at hx
    · simp at hx
    · exact ⟨‹_›, hx⟩
  constructor
  · intro p
    split
    · exact List.nodup_nil
    · exact h.nodup p
  · exact fun x p q hp hq => h.unique x p q (hmem x p hp).2 (hmem x q hq).2
  · intro x p hx
    obtain ⟨hp, hx⟩ := hmem x p hx
    exact ⟨⟨(h.alive x p hx).1, mt (hdown x p hx).mp hp⟩, (h.alive x p hx).2, hp⟩
  · obtain ⟨rank, hr⟩ := h.ranked
    exact ⟨rank, fun x p hx => hr x p (hmem x p hx).2⟩

end Forest

end CppJson
