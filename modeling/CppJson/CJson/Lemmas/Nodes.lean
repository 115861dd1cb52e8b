import CppJson.CJson.Nodes
import CppJson.Lib.Siblings
import CppJson.Lib.Forest

/-!
# Nodes hold a forest

Memory in which the pointers of the nodes lay out a forest (`Holds`), and what the functions that
change pointers do to it.
-/

namespace CppJson

namespace Nodes

variable {Ptr : Type} {nodes nodes' : Nodes Ptr} {children : Ptr → List Ptr} {p x y : Ptr}
  {l l₁ l₂ : List Ptr}

/-- The pointers are those of a forest; what has no parent is not linked. -/
structure Holds (nodes : Nodes Ptr) (children : Ptr → List Ptr) : Prop where
  forest : Forest (fun p => nodes.allocated p = true) children
  child : ∀ p, nodes.allocated p = true → nodes.child p = (children p).head?
  siblings : ∀ p, Siblings nodes.next nodes.prev (children p)
  loose : ∀ x, nodes.allocated x = true → (∀ p, x ∉ children p) →
    nodes.next x = none ∧ nodes.prev x = none

theorem holds_empty : Holds (empty : Nodes Ptr) fun _ => [] where
  forest := ⟨fun _ => List.nodup_nil, by simp, by simp, fun _ => 0, by simp⟩
  child := by simp [empty]
  siblings := fun _ => Siblings.nil
  loose := by simp [empty]

/-- The names and values of the nodes, and which there are, are the same. -/
structure SameData (nodes nodes' : Nodes Ptr) : Prop where
  allocated : nodes'.allocated = nodes.allocated
  kind : nodes'.kind = nodes.kind
  string : nodes'.string = nodes.string

/-- The program returns `r`, and memory has the same nodes and then holds the forest `children'`. -/
def Makes {α : Type} (nodes : Nodes Ptr) (x : NodeProg Ptr α) (r : α) (children' : Ptr → List Ptr) :
    Prop :=
  (x.run nodes).Post (fun r' nodes' => r' = r ∧ nodes.SameData nodes' ∧ nodes'.Holds children')
    fun _ _ => False

/-- The children of one node change, and with them the links of those that were or are its
children. -/
theorem Holds.relink [DecidableEq Ptr] (h : nodes.Holds children) (hp : nodes.allocated p = true)
    (hnodup : l.Nodup) (halive : ∀ x ∈ l, nodes.allocated x = true)
    (hnew : ∀ x ∈ l, x ∈ children p ∨ (∀ q, x ∉ children q) ∧ ¬Within children p x)
    (hdata : nodes'.allocated = nodes.allocated)
    (hchild : nodes'.child = Function.update nodes.child p l.head?)
    (hsib : Siblings nodes'.next nodes'.prev l)
    (hout : ∀ a, a ∉ children p → a ∉ l → nodes'.next a = nodes.next a ∧ nodes'.prev a = nodes.prev a)
    (hgone : ∀ a ∈ children p, a ∉ l → nodes'.next a = none ∧ nodes'.prev a = none) :
    nodes'.Holds (Function.update children p l) := by
  have hother : ∀ q, q ≠ p → ∀ x ∈ children q, x ∉ children p ∧ x ∉ l := by
    intro q hq x hx
    have hxp : x ∉ children p := fun hxp => hq (h.forest.unique x q p hx hxp)
    refine ⟨hxp, fun hxl => ?_⟩
    rcases hnew x hxl with hxp' | ⟨hroot, -⟩
    · exact hxp hxp'
    · exact hroot q hx
  constructor
  · rw [hdata]
    exact h.forest.update hp hnodup halive hnew
  · intro q hq
    rw [hchild]
    by_cases hqp : q = p
    · simp [hqp]
    · simpa [hqp] using h.child q (hdata ▸ hq)
  · intro q
    by_cases hqp : q = p
    · simpa [hqp] using hsib
    · rw [Function.update_of_ne hqp]
      exact (h.siblings q).congr (fun a ha => (hout a (hother q hqp a ha).1 (hother q hqp a ha).2).1)
        fun a ha => (hout a (hother q hqp a ha).1 (hother q hqp a ha).2).2
  · intro a ha hroot
    have hal : a ∉ l := by simpa using hroot p
    by_cases hap : a ∈ children p
    · exact hgone a hap hal
    · have hnone : ∀ q, a ∉ children q := by
        intro q
        by_cases hqp : q = p
        · exact hqp ▸ hap
        · simpa [hqp] using hroot q
      rw [(hout a hap hal).1, (hout a hap hal).2]
      exact h.loose a (hdata ▸ ha) hnone

theorem Holds.allocated_of_mem (h : nodes.Holds children) (hx : x ∈ children p) :
    nodes.allocated x = true :=
  (h.forest.alive x p hx).1

/-! ## Fields -/

section Fields

@[simp] theorem run_deref (hp : nodes.allocated p = true) :
    (deref (some p)).run nodes = .ok p nodes := by
  simp [deref, hp]

@[simp] theorem run_load {α : Type} (field : Nodes Ptr → Ptr → α) (hp : nodes.allocated p = true) :
    (load field (some p)).run nodes = .ok (field nodes p) nodes := by
  simp [load, Prog.run_bind, hp]

variable [DecidableEq Ptr] (value : Option Ptr)

@[simp] theorem run_setNext (hp : nodes.allocated p = true) :
    (setNext (some p) value).run nodes =
      .ok () { nodes with next := Function.update nodes.next p value } := by
  simp [setNext, Prog.run_bind, hp]

@[simp] theorem run_setPrev (hp : nodes.allocated p = true) :
    (setPrev (some p) value).run nodes =
      .ok () { nodes with prev := Function.update nodes.prev p value } := by
  simp [setPrev, Prog.run_bind, hp]

@[simp] theorem run_setChild (hp : nodes.allocated p = true) :
    (setChild (some p) value).run nodes =
      .ok () { nodes with child := Function.update nodes.child p value } := by
  simp [setChild, Prog.run_bind, hp]

@[simp] theorem run_setString (name : Option CStr) (hp : nodes.allocated p = true) :
    (setString (some p) name).run nodes =
      .ok () { nodes with string := Function.update nodes.string p name } := by
  simp [setString, Prog.run_bind, hp]

end Fields

/-! ## Walking along a list -/

theorem getArrayItemLoop_eq {before : Option Ptr}
    (hseg : Segment nodes.next nodes.prev before l none) (hl : ∀ a ∈ l, nodes.allocated a = true)
    (i : ℕ) : (getArrayItemLoop i l.head?).run nodes = .ok l[i]? nodes := by
  induction l generalizing before i with
  | nil => cases i <;> rfl
  | cons a l ih =>
      cases i with
      | zero => rfl
      | succ i =>
          obtain ⟨-, hnext, hseg⟩ := hseg
          rw [List.forall_mem_cons] at hl
          rw [List.head?_cons, getArrayItemLoop, Prog.run_bind, run_load _ hl.1, hnext, Option.or_none]
          · exact ih hseg hl.2 i
          · simp

theorem getArrayItem_eq [DecidableEq Ptr] (h : nodes.Holds children) (hp : nodes.allocated p = true)
    (i : ℕ) :
    (getArrayItem (some p) i).run nodes = .ok (children p)[i]? nodes := by
  simp only [getArrayItem, reduceCtorEq, ↓reduceIte, Prog.run_bind, run_load _ hp, h.child p hp]
  exact getArrayItemLoop_eq (h.siblings p) (fun _ => h.allocated_of_mem) i

theorem getArraySizeLoop_eq {before : Option Ptr} (hseg : Segment nodes.next nodes.prev before l none)
    (hl : ∀ a ∈ l, nodes.allocated a = true) {n : ℕ} (hn : l.length < n) (size : ℕ) :
    (getArraySizeLoop n l.head? size).run nodes = .ok (size + l.length) nodes := by
  induction l generalizing before n size with
  | nil =>
      obtain ⟨n, rfl⟩ : ∃ k, n = k + 1 := ⟨n - 1, by omega⟩
      rfl
  | cons a l ih =>
      obtain ⟨n, rfl⟩ : ∃ k, n = k + 1 := ⟨n - 1, by omega⟩
      obtain ⟨-, hnext, hseg⟩ := hseg
      rw [List.forall_mem_cons] at hl
      rw [List.head?_cons, getArraySizeLoop, Prog.run_bind_ok (run_load _ hl.1), hnext, Option.or_none]
      · rw [ih hseg hl.2 (by simpa using hn), List.length_cons]
        congr 1
        omega
      · simp

theorem getObjectItemLoop_eq {before : Option Ptr}
    (hseg : Segment nodes.next nodes.prev before l none) (hl : ∀ a ∈ l, nodes.allocated a = true)
    (name : CStr) (caseSensitive : Bool) {n : ℕ} (hn : l.length < n) :
    (getObjectItemLoop name caseSensitive n l.head?).run nodes =
      .ok (l.find? (stopsAt nodes.string name caseSensitive)) nodes := by
  induction l generalizing before n with
  | nil =>
      obtain ⟨n, rfl⟩ : ∃ k, n = k + 1 := ⟨n - 1, by omega⟩
      rfl
  | cons a l ih =>
      obtain ⟨n, rfl⟩ : ∃ k, n = k + 1 := ⟨n - 1, by omega⟩
      obtain ⟨-, hnext, hseg⟩ := hseg
      rw [List.forall_mem_cons] at hl
      rw [Option.or_none] at hnext
      have ih := ih hseg hl.2 (n := n) (by simpa using hn)
      have hgo : (if caseSensitive then nodes.string a ≠ none ∧ nodes.string a ≠ some name
          else caseInsensitiveStrcmp (some name) (nodes.string a) ≠ 0) ↔
            stopsAt nodes.string name caseSensitive a = false := by
        cases caseSensitive <;> simp [stopsAt]
      rw [List.head?_cons, getObjectItemLoop, Prog.run_bind_ok (run_load _ hl.1), List.find?_cons]
      · cases hstop : stopsAt nodes.string name caseSensitive a with
        | true => simp [hgo, hstop]
        | false => simp [hgo, hstop, Prog.run_bind, hl.1, hnext, ih]
      · simp

/-! ## Adding -/

section Change

variable [DecidableEq Ptr]

/-- A node that may be put under `p`. -/
structure Free (nodes : Nodes Ptr) (children : Ptr → List Ptr) (p x : Ptr) : Prop where
  allocated : nodes.allocated x = true
  root : ∀ q, x ∉ children q
  above : ¬Within children p x

omit [DecidableEq Ptr] in
theorem Free.ne (h : nodes.Free children p x) : p ≠ x := fun heq => h.above (heq ▸ .refl)

omit [DecidableEq Ptr] in
theorem Free.notMem (h : nodes.Free children p x) (q : Ptr) : ∀ a ∈ children q, a ≠ x :=
  fun _ ha heq => h.root q (heq ▸ ha)

omit [DecidableEq Ptr] in
theorem Free.nodup_snoc (hh : nodes.Holds children) (h : nodes.Free children p x) (q : Ptr) :
    (children q ++ [x]).Nodup := by
  rw [List.nodup_append]
  exact ⟨hh.forest.nodup q, List.nodup_singleton x,
    fun a ha _ hb => List.mem_singleton.mp hb ▸ h.notMem q a ha⟩

/-- Children of `p`, of which those that are new may be put under `p`. -/
theorem Holds.relink_free (h : nodes.Holds children) (hp : nodes.allocated p = true)
    (hx : nodes.Free children p x) (hnodup : l.Nodup) (hmem : ∀ a ∈ l, a ∈ children p ∨ a = x)
    (hdata : nodes.SameData nodes') (hchild : nodes'.child = Function.update nodes.child p l.head?)
    (hsib : Siblings nodes'.next nodes'.prev l)
    (hout : ∀ a, a ∉ children p → a ∉ l → nodes'.next a = nodes.next a ∧ nodes'.prev a = nodes.prev a)
    (hgone : ∀ a ∈ children p, a ∉ l → nodes'.next a = none ∧ nodes'.prev a = none) :
    nodes'.Holds (Function.update children p l) := by
  refine h.relink hp hnodup ?_ ?_ hdata.allocated hchild hsib hout hgone
  · intro a ha
    rcases hmem a ha with ha | rfl
    · exact h.allocated_of_mem ha
    · exact hx.allocated
  · intro _ ha
    rcases hmem _ ha with ha | rfl
    · exact .inl ha
    · exact .inr ⟨hx.root, hx.above⟩

theorem addItemToArray_spec (h : nodes.Holds children) (hp : nodes.allocated p = true)
    (hx : nodes.Free children p x) :
    nodes.Makes (addItemToArray (some p) (some x)) true
      (Function.update children p (children p ++ [x])) := by
  have hchild := h.child p hp
  have hpx := hx.ne
  have hnodup := hx.nodup_snoc h p
  have hmem : ∀ a ∈ children p ++ [x], a ∈ children p ∨ a = x := by simp
  by_cases hl : children p = []
  · rw [hl] at hchild
    simp only [Makes, addItemToArray, reduceCtorEq, Option.some.injEq, hpx, or_self, ↓reduceIte,
      Prog.run_bind, run_load, hp, hchild, List.head?_nil, run_setChild, run_setPrev, run_setNext,
      hx.allocated, Prog.run_pure]
    refine ⟨rfl, ⟨rfl, rfl, rfl⟩, ?_⟩
    refine h.relink_free hp hx hnodup hmem ⟨rfl, rfl, rfl⟩ (by simp [hl]) ?_ (fun a _ ha => ?_)
      (by simp [hl])
    · rw [hl]
      exact Siblings.singleton (by simp) (by simp)
    · have hax : a ≠ x := fun heq => ha (by simp [heq])
      simp [hax]
  · -- the last child is found in `prev` of the first
    obtain ⟨a, t, hl⟩ := List.exists_cons_of_ne_nil hl
    obtain ⟨z, hz⟩ : ∃ z, (children p).getLast? = some z :=
      ⟨_, List.getLast?_eq_some_getLast (by simp [hl])⟩
    have hprev : nodes.prev a = some z := by
      have := h.siblings p
      rw [hl] at this hz
      rw [this.prev_head, hz]
    have ha : a ∈ children p := by simp [hl]
    have hzmem := List.mem_of_getLast? hz
    have hax := hx.notMem p a ha
    have hzx := hx.notMem p z hzmem
    have hloose := (h.loose x hx.allocated hx.root).1
    rw [hl] at hchild
    simp only [Makes, addItemToArray, suffixObject, reduceCtorEq, Option.some.injEq, hpx, or_self,
      ↓reduceIte, Prog.run_bind, run_load, run_setPrev, run_setNext, hp, hchild, List.head?_cons,
      h.allocated_of_mem ha, hprev, h.allocated_of_mem hzmem, hx.allocated, Prog.run_pure]
    refine ⟨rfl, ⟨rfl, rfl, rfl⟩, ?_⟩
    refine h.relink_free hp hx hnodup hmem ⟨rfl, rfl, rfl⟩ ?_ ?_ (fun b hb hb' => ?_)
      (fun b hb hb' => ?_)
    · simpa [hl] using hchild
    · refine (h.siblings p).snoc hnodup (by simp [hl]) ?_ ?_ ?_ ?_ ?_ ?_
      · simp [hzx.symm, hloose]
      · simp [hax.symm, hz]
      · simp [hz]
      · simp [hl]
      · intro b hb hne
        have hbz : b ≠ z := fun heq => hne (by rw [heq, hz])
        simp [hbz]
      · intro b hb hne
        have hba : b ≠ a := fun heq => hne (by simp [heq, hl])
        simp [hba, hx.notMem p b hb]
    · have hbz : b ≠ z := fun heq => hb (heq ▸ hzmem)
      have hba : b ≠ a := fun heq => hb (heq ▸ ha)
      have hbx : b ≠ x := fun heq => hb' (by simp [heq])
      simp [hbz, hba, hbx]
    · exact absurd (List.mem_append_left _ hb) hb'

omit [DecidableEq Ptr] in
theorem Free.nodup_insert (hh : nodes.Holds children) (h : nodes.Free children p x)
    (hl : children p = l₁ ++ l₂) :
    (l₁ ++ x :: l₂).Nodup := by
  have hnodup := hh.forest.nodup p
  rw [hl] at hnodup
  refine List.nodup_middle.mpr (List.nodup_cons.mpr ⟨?_, hnodup⟩)
  rw [← hl]
  exact h.root p

/-- A node in front of a child. -/
theorem insert_spec (h : nodes.Holds children) (hp : nodes.allocated p = true)
    (hx : nodes.Free children p x) {i : ℕ} (hl : children p = l₁ ++ y :: l₂)
    (hi : (children p)[i]? = some y) :
    nodes.Makes (cjsonInsertItemInArray (some p) i (some x)) true
      (Function.update children p (l₁ ++ x :: y :: l₂)) := by
  have hchild := h.child p hp
  have hnodup := h.forest.nodup p
  have hsib := h.siblings p
  have hnodup' := hx.nodup_insert h hl
  have hmem : ∀ a ∈ l₁ ++ x :: y :: l₂, a ∈ children p ∨ a = x := by
    intro a ha
    rw [hl]
    simp only [List.mem_append, List.mem_cons] at ha ⊢
    tauto
  have hy : y ∈ children p := by simp [hl]
  have hyx := hx.notMem p y hy
  have hget := getArrayItem_eq h hp i
  have hprev_y : nodes.prev y = l₁.getLast?.or (children p).getLast? := by
    rw [hl] at hsib ⊢
    exact hsib.prev_eq
  rw [hi] at hget
  rw [hl] at hchild hnodup hsib
  rcases l₁.eq_nil_or_concat' with rfl | ⟨k, z, rfl⟩
  · have hneg : ¬((i : ℤ) < 0) := by omega
    simp only [Makes, cjsonInsertItemInArray, hneg, ↓reduceIte, Int.toNat_natCast, Prog.run_bind,
      hget, reduceCtorEq, run_setNext, hx.allocated, run_load, h.allocated_of_mem hy, run_setPrev,
      hp, hchild, List.nil_append, List.head?_cons, run_setChild, Prog.run_pure]
    refine ⟨rfl, ⟨rfl, rfl, rfl⟩, ?_⟩
    refine h.relink_free hp hx hnodup' hmem ⟨rfl, rfl, rfl⟩ rfl ?_ (fun b hb hb' => ?_)
      (fun b hb hb' => ?_)
    · refine Siblings.insert (hsib : Siblings _ _ ([] ++ y :: l₂)) hnodup ?_ ?_ ?_ ?_ ?_ ?_
      · simp
      · simp [hyx.symm]
      · simp
      · simp
      · exact fun b hb _ => by simp [hx.notMem p b (hl ▸ hb)]
      · exact fun b hb hby => by simp [hx.notMem p b (hl ▸ hb), hby]
    · have hbx : b ≠ x := fun heq => hb' (by simp [heq])
      have hby : b ≠ y := fun heq => hb' (by simp [heq])
      simp [hbx, hby]
    · rw [hl] at hb
      exact absurd (List.mem_cons_of_mem _ hb) hb'
  · have hneg : ¬((i : ℤ) < 0) := by omega
    obtain ⟨c, hc⟩ : ∃ c, (k ++ [z]).head? = some c := ⟨_, List.head?_eq_some_head (by simp)⟩
    have hhead : (k ++ [z] ++ y :: l₂).head? = some c := by rw [List.head?_append, hc, Option.some_or]
    have hdisj := (List.nodup_append.mp hnodup).2.2
    have hyc : y ≠ c := (hdisj c (List.mem_of_mem_head? hc) y List.mem_cons_self).symm
    have hzy : z ≠ y := hdisj z (by simp) y List.mem_cons_self
    have hz : z ∈ children p := by simp [hl]
    have hzx := hx.notMem p z hz
    have hprev_y : nodes.prev y = some z := by simpa using hprev_y
    simp only [Makes, cjsonInsertItemInArray, hneg, ↓reduceIte, Int.toNat_natCast, Prog.run_bind,
      hget, reduceCtorEq, run_setNext, hx.allocated, run_load, h.allocated_of_mem hy, run_setPrev,
      hp, hchild, hhead, Option.some.injEq, hyc, Function.update_of_ne hyx.symm,
      Function.update_self, hprev_y, h.allocated_of_mem hz, Prog.run_pure]
    refine ⟨rfl, ⟨rfl, rfl, rfl⟩, ?_⟩
    refine h.relink_free hp hx hnodup' hmem ⟨rfl, rfl, rfl⟩ ?_ ?_ (fun b hb hb' => ?_)
      (fun b hb hb' => ?_)
    · have hhead' : (k ++ [z] ++ x :: y :: l₂).head? = some c := by
        rw [List.head?_append, hc, Option.some_or]
      rw [hhead', ← hhead, ← hchild, Function.update_eq_self]
    · refine Siblings.insert hsib hnodup ?_ ?_ ?_ ?_ ?_ ?_
      · simp [hzx.symm]
      · simp [hyx.symm, hprev_y]
      · simp
      · simp
      · intro b hb hne
        have hbz : b ≠ z := fun heq => hne (by simp [heq])
        simp [hx.notMem p b (hl ▸ hb), hbz]
      · exact fun b hb hby => by simp [hx.notMem p b (hl ▸ hb), hby]
    · have hbx : b ≠ x := fun heq => hb' (by simp [heq])
      have hby : b ≠ y := fun heq => hb' (by simp [heq])
      have hbz : b ≠ z := fun heq => hb' (by simp [heq])
      simp [hbx, hby, hbz]
    · rw [hl] at hb
      refine absurd ?_ hb'
      simp only [List.mem_append, List.mem_cons] at hb ⊢
      tauto

/-! ## Taking out -/

/-- What surrounds a child. -/
structure Place (nodes : Nodes Ptr) (children : Ptr → List Ptr) (p : Ptr) (l₁ : List Ptr) (y : Ptr)
    (l₂ : List Ptr) :
    Prop where
  eq : children p = l₁ ++ y :: l₂
  child : nodes.child p = (l₁ ++ y :: l₂).head?
  next : nodes.next y = l₂.head?
  prev : nodes.prev y = l₁.getLast?.or (l₁ ++ y :: l₂).getLast?
  nodup : (l₁ ++ y :: l₂).Nodup
  siblings : Siblings nodes.next nodes.prev (l₁ ++ y :: l₂)
  allocated : ∀ a ∈ l₁ ++ y :: l₂, nodes.allocated a = true

omit [DecidableEq Ptr] in
theorem Holds.place (h : nodes.Holds children) (hp : nodes.allocated p = true)
    (hl : children p = l₁ ++ y :: l₂) :
    nodes.Place children p l₁ y l₂ where
  eq := hl
  child := hl ▸ h.child p hp
  next := (hl ▸ h.siblings p : Siblings _ _ _).next_eq
  prev := (hl ▸ h.siblings p : Siblings _ _ _).prev_eq
  nodup := hl ▸ h.forest.nodup p
  siblings := hl ▸ h.siblings p
  allocated := fun _ ha => h.allocated_of_mem (hl ▸ ha)

omit [DecidableEq Ptr] in
theorem Place.ne (h : nodes.Place children p l₁ y l₂) : ∀ a ∈ l₁ ++ l₂, a ≠ y := by
  have hnodup := List.nodup_cons.mp (List.nodup_middle.mp h.nodup)
  exact fun a ha heq => hnodup.1 (heq ▸ ha)

omit [DecidableEq Ptr] in
theorem Place.mem_iff (h : nodes.Place children p l₁ y l₂) (a : Ptr) :
    a ∈ children p ↔ a ∈ l₁ ∨ a = y ∨ a ∈ l₂ := by
  simp [h.eq]

/-- The children of `p` without `y`. -/
theorem Holds.relink_without (h : nodes.Holds children) (hp : nodes.allocated p = true)
    (hy : nodes.Place children p l₁ y l₂) (hdata : nodes.SameData nodes')
    (hchild : nodes'.child = Function.update nodes.child p (l₁ ++ l₂).head?)
    (hsib : Siblings nodes'.next nodes'.prev (l₁ ++ l₂))
    (hout : ∀ a, a ∉ l₁ → a ≠ y → a ∉ l₂ → nodes'.next a = nodes.next a ∧ nodes'.prev a = nodes.prev a)
    (hgone : nodes'.next y = none ∧ nodes'.prev y = none) :
    nodes'.Holds (Function.update children p (l₁ ++ l₂)) := by
  have hnodup := List.nodup_cons.mp (List.nodup_middle.mp hy.nodup)
  have hmem : ∀ a ∈ l₁ ++ l₂, a ∈ children p := by
    intro a ha
    rw [hy.eq]
    simp only [List.mem_append, List.mem_cons] at ha ⊢
    tauto
  refine h.relink hp hnodup.2 (fun a ha => h.allocated_of_mem (hmem a ha))
    (fun a ha => .inl (hmem a ha)) hdata.allocated hchild hsib (fun a ha _ => ?_) fun a ha ha' => ?_
  · simp only [hy.eq, List.mem_append, List.mem_cons, not_or] at ha
    exact hout a ha.1 ha.2.1 ha.2.2
  · obtain rfl : a = y := by
      simp only [hy.eq, List.mem_append, List.mem_cons, not_or] at ha ha'
      tauto
    exact hgone

theorem cjsonDetachItemViaPointer_spec (h : nodes.Holds children) (hp : nodes.allocated p = true)
    (hl : children p = l₁ ++ y :: l₂) :
    nodes.Makes (cjsonDetachItemViaPointer (some p) (some y)) (some y)
      (Function.update children p (l₁ ++ l₂)) := by
  have hplace := h.place hp hl
  obtain ⟨-, hchild, hnext, hprev, hnodup, hsib, halloc⟩ := h.place hp hl
  have hy := halloc y (by simp)
  have hne := hplace.ne
  rcases l₁.eq_nil_or_concat' with rfl | ⟨k, z, rfl⟩
  · cases l₂ with
    | nil =>
        simp only [Makes, cjsonDetachItemViaPointer, reduceCtorEq, or_self, ↓reduceIte,
          Prog.run_bind, run_load, hp, hchild, List.nil_append, List.head?_cons, ne_eq,
          not_true_eq_false, Prog.run_pure, hy, hnext, List.head?_nil, run_setChild,
          run_setPrev, run_setNext]
        refine ⟨rfl, ⟨rfl, rfl, rfl⟩,
          h.relink_without hp hplace ⟨rfl, rfl, rfl⟩ rfl Siblings.nil ?_ (by simp)⟩
        intro a _ ha _
        simp [ha]
    | cons w t =>
        have hw := halloc w (by simp)
        have hwy : w ≠ y := hne w (by simp)
        simp only [Makes, cjsonDetachItemViaPointer, reduceCtorEq, or_self, ↓reduceIte,
          Prog.run_bind, run_load, hp, hchild, List.nil_append, List.head?_cons, ne_eq,
          not_true_eq_false, not_false_eq_true, Prog.run_pure, hy, hnext, hw, run_setChild,
          run_setPrev, run_setNext]
        refine ⟨rfl, ⟨rfl, rfl, rfl⟩, h.relink_without hp hplace ⟨rfl, rfl, rfl⟩ rfl ?_ ?_ (by simp)⟩
        · refine Siblings.remove hsib hnodup ?_ ?_ ?_ ?_ ?_
          · simp
          · simp [hwy]
          · simp
          · exact fun a ha _ => by simp [hne a ha]
          · intro a ha haw _
            have haw : a ≠ w := fun heq => haw (by simp [heq])
            simp [hne a ha, haw]
        · intro a _ hay hat
          have haw : a ≠ w := fun heq => hat (by simp [heq])
          simp [hay, haw]
  · obtain ⟨c, hc⟩ : ∃ c, (k ++ [z]).head? = some c := ⟨_, List.head?_eq_some_head (by simp)⟩
    have hcmem : c ∈ k ++ [z] := List.mem_of_mem_head? hc
    have hhead : ∀ l, (k ++ [z] ++ l).head? = some c :=
      fun l => by rw [List.head?_append, hc, Option.some_or]
    have hcy : c ≠ y := hne c (List.mem_append_left _ hcmem)
    have hzy : z ≠ y := hne z (by simp)
    have hz := halloc z (by simp)
    have hcalloc := halloc c (List.mem_append_left _ hcmem)
    have hprev_y : nodes.prev y = some z := by simpa using hprev
    cases l₂ with
    | nil =>
        simp only [Makes, cjsonDetachItemViaPointer, reduceCtorEq, or_self, ↓reduceIte,
          Prog.run_bind, run_load, hp, hchild, hhead, ne_eq, Option.some.injEq, hcy.symm,
          not_true_eq_false, not_false_eq_true, Prog.run_pure, hy, hprev_y, hnext, List.head?_nil,
          hz, hcalloc, run_setPrev, run_setNext, Function.update_of_ne hzy.symm]
        refine ⟨rfl, ⟨rfl, rfl, rfl⟩, h.relink_without hp hplace ⟨rfl, rfl, rfl⟩ ?_ ?_ ?_ (by simp)⟩
        · rw [hhead, ← hhead [y], ← hchild, Function.update_eq_self]
        · refine Siblings.remove hsib hnodup ?_ ?_ ?_ ?_ ?_
          · simp [hzy]
          · simp
          · simp [hc, hcy, hprev_y]
          · intro a ha haz
            have haz : a ≠ z := fun heq => haz (by simp [heq])
            simp [hne a ha, haz]
          · intro a ha _ hac
            have hac : a ≠ c := fun heq => hac rfl (by rw [heq, hc])
            simp [hne a ha, hac]
        · intro a hak hay _
          have haz : a ≠ z := fun heq => hak (by simp [heq])
          have hac : a ≠ c := fun heq => hak (heq ▸ hcmem)
          simp [haz, hac, hay]
    | cons w t =>
        have hw := halloc w (by simp)
        have hwy : w ≠ y := hne w (by simp)
        simp only [Makes, cjsonDetachItemViaPointer, reduceCtorEq, or_self, ↓reduceIte,
          Prog.run_bind, run_load, hp, hchild, hhead, ne_eq, Option.some.injEq, hcy.symm,
          not_false_eq_true, Prog.run_pure, hy, hprev_y, hnext, List.head?_cons, hz, hw,
          run_setPrev, run_setNext, Function.update_of_ne hzy.symm]
        refine ⟨rfl, ⟨rfl, rfl, rfl⟩, h.relink_without hp hplace ⟨rfl, rfl, rfl⟩ ?_ ?_ ?_ (by simp)⟩
        · rw [hhead, ← hhead (y :: w :: t), ← hchild, Function.update_eq_self]
        · refine Siblings.remove hsib hnodup ?_ ?_ ?_ ?_ ?_
          · simp [hzy]
          · simp [hwy, hprev_y]
          · simp
          · intro a ha haz
            have haz : a ≠ z := fun heq => haz (by simp [heq])
            simp [hne a ha, haz]
          · intro a ha haw _
            have haw : a ≠ w := fun heq => haw (by simp [heq])
            simp [hne a ha, haw]
        · intro a hak hay hat
          have haz : a ≠ z := fun heq => hak (by simp [heq])
          have haw : a ≠ w := fun heq => hat (by simp [heq])
          simp [haz, haw, hay]

end Change

end Nodes

end CppJson
