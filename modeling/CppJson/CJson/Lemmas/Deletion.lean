import CppJson.CJson.Lemmas.Layout

/-!
# Deleting and replacing nodes

`cJSON_Delete` frees a tree (`cjsonDelete_spec`). A replaced node is deleted once its place is taken
(`cjsonReplaceItemViaPointer_spec`).
-/

namespace CppJson

namespace Nodes

variable {Ptr : Type} {nodes nodes' : Nodes Ptr} {children : Ptr → List Ptr} {p x y : Ptr}
  {l l₁ l₂ : List Ptr}

/-! ## Deleting -/

theorem Holds.prune (h : nodes.Holds children) (hroot : ∀ q, x ∉ children q)
    (hdata : nodes' = { nodes with allocated := nodes'.allocated })
    (halloc : ∀ a, nodes'.allocated a = true ↔ nodes.allocated a = true ∧ ¬Within children a x) :
    nodes'.Holds (CppJson.prune children x) := by
  classical
  have hdown : ∀ a p, a ∈ children p → (Within children a x ↔ Within children p x) := by
    intro a p ha
    constructor
    · intro hax
      cases Relation.ReflTransGen.cases_head hax with
      | inl heq => exact absurd (heq ▸ ha) (hroot p)
      | inr hax =>
          obtain ⟨q, hq, hqx⟩ := hax
          exact h.forest.unique a q p hq ha ▸ hqx
    · exact fun hpx => .head ha hpx
  have hforest := h.forest.prune hdown
  rw [hdata]
  constructor
  · have heq : CppJson.prune children x = fun p => if Within children p x then [] else children p := rfl
    simpa only [halloc, heq] using hforest
  · intro p hp
    have hpx := (halloc p).mp hp
    simpa [CppJson.prune, hpx.2] using h.child p hpx.1
  · intro p
    by_cases hpx : Within children p x
    · simpa [CppJson.prune, hpx] using Siblings.nil
    · simpa [CppJson.prune, hpx] using h.siblings p
  · intro a ha hnone
    have hax := (halloc a).mp ha
    refine h.loose a hax.1 fun q hq => ?_
    have hqx : ¬Within children q x := mt (hdown a q hq).mpr hax.2
    exact hnone q (by simpa [CppJson.prune, hqx] using hq)

variable [DecidableEq Ptr]

/-- What deleting the tree of `x` leaves: the nodes of that tree are free, and nothing else has
changed. -/
structure Freed (nodes : Nodes Ptr) (children : Ptr → List Ptr) (x : Ptr) (nodes' : Nodes Ptr) :
    Prop where
  rest : nodes' = { nodes with allocated := nodes'.allocated }
  allocated : ∀ a, nodes'.allocated a = true ↔ nodes.allocated a = true ∧ ¬Within children a x
  holds : nodes'.Holds (prune children x)

theorem cjsonDelete_spec {alive : Ptr → Prop} (hf : Forest alive children) (x : Ptr) :
    ∃ N, ∀ n ≥ N, ∀ nodes : Nodes Ptr, nodes.Holds children → nodes.allocated x = true →
      (∀ q, x ∉ children q) →
      ((cjsonDelete n (some x)).run nodes).Post (fun _ nodes' => nodes.Freed children x nodes')
        fun _ _ => False := by
  obtain ⟨t, rfl, ht⟩ := Rose.exists_spans hf x
  refine ⟨t.toList.length + 1, fun n hn nodes h hx hroot => ?_⟩
  have hseg : Segment nodes.next nodes.prev (nodes.prev t.root) [t.root] none :=
    ⟨rfl, (h.loose _ hx hroot).1, trivial⟩
  have hflat : Rose.flat [t] = t.toList := List.append_nil _
  have hlaid : nodes.LaidAll [t] := ⟨h.laid ht hx, trivial⟩
  have hrun := cjsonDelete_laid (n := n) hlaid hseg (by simpa using ht.nodup h.forest)
    (by rw [hflat]; omega)
  rw [hflat, List.map_singleton, List.head?_singleton] at hrun
  have hiff : ∀ a, (nodes.release t.toList).allocated a = true ↔
      nodes.allocated a = true ∧ ¬Within children a t.root := by
    intro a
    rw [allocated_release, ht.mem_iff]
  rw [hrun]
  exact ⟨rfl, hiff, h.prune hroot rfl hiff⟩

/-! ## Replacing -/

/-- The children of `p` with `x` in the place of `y`. -/
theorem Holds.relink_instead (h : nodes.Holds children) (hp : nodes.allocated p = true)
    (hx : nodes.Free children p x) (hy : nodes.Place children p l₁ y l₂)
    (hdata : nodes.SameData nodes')
    (hchild : nodes'.child = Function.update nodes.child p (l₁ ++ x :: l₂).head?)
    (hsib : Siblings nodes'.next nodes'.prev (l₁ ++ x :: l₂))
    (hout : ∀ a, a ∉ l₁ → a ≠ y → a ≠ x → a ∉ l₂ →
      nodes'.next a = nodes.next a ∧ nodes'.prev a = nodes.prev a)
    (hgone : nodes'.next y = none ∧ nodes'.prev y = none) :
    nodes'.Holds (Function.update children p (l₁ ++ x :: l₂)) := by
  have hmem := hy.mem_iff
  have hnodup := List.nodup_cons.mp (List.nodup_middle.mp hy.nodup)
  have hxmem : x ∉ l₁ ++ l₂ :=
    fun hx' => hx.root p (by rw [hmem]; simp only [List.mem_append] at hx'; tauto)
  refine h.relink_free hp hx (List.nodup_middle.mpr (List.nodup_cons.mpr ⟨hxmem, hnodup.2⟩))
    (fun a ha => ?_) hdata hchild hsib (fun a ha ha' => ?_) fun a ha ha' => ?_
  · rw [hmem]
    simp only [List.mem_append, List.mem_cons] at ha
    tauto
  · rw [hmem, not_or, not_or] at ha
    simp only [List.mem_append, List.mem_cons, not_or] at ha'
    exact hout a ha.1 ha.2.1 ha'.2.1 ha.2.2
  · obtain rfl : a = y := by
      rw [hmem] at ha
      simp only [List.mem_append, List.mem_cons, not_or] at ha'
      tauto
    exact hgone

/-- Up to the call of `cJSON_Delete`, the replacement takes the place of the item. -/
theorem cjsonReplaceItemViaPointer_post (h : nodes.Holds children) (hp : nodes.allocated p = true)
    (hx : nodes.Free children p x) (hl : children p = l₁ ++ y :: l₂) {n : ℕ}
    {Q : Bool → Nodes Ptr → Prop} {E : NodeFault → Nodes Ptr → Prop}
    (hdelete : ∀ nodes₁, nodes.SameData nodes₁ →
      nodes₁.Holds (Function.update children p (l₁ ++ x :: l₂)) →
      ((do cjsonDelete n (some y); return true : NodeProg Ptr Bool).run nodes₁).Post Q E) :
    ((cjsonReplaceItemViaPointer n (some p) (some y) (some x)).run nodes).Post Q E := by
  have hplace := h.place hp hl
  obtain ⟨-, hchild, hnext, hprev, hnodup, hsib, halloc⟩ := h.place hp hl
  have hy := halloc y (by simp)
  have hne := hplace.ne
  have hxall := hx.allocated
  have hxne : ∀ a ∈ l₁ ++ y :: l₂, a ≠ x := fun a ha => hx.notMem p a (hl ▸ ha)
  have hxne' : ∀ a ∈ l₁ ++ l₂, a ≠ x := fun a ha => hxne a (by
    simp only [List.mem_append, List.mem_cons] at ha ⊢
    tauto)
  have hyx := hxne y (by simp)
  rcases l₁.eq_nil_or_concat' with rfl | ⟨k, z, rfl⟩
  · cases l₂ with
    | nil =>
        have hprev_y : nodes.prev y = some y := by simpa using hprev
        simp only [cjsonReplaceItemViaPointer, reduceCtorEq, or_self, ↓reduceIte, Prog.run_bind,
          run_load, hp, hchild, List.nil_append, List.head?_cons, Option.some.injEq, hyx.symm, hy,
          hnext, List.head?_nil, run_setNext, hxall, run_setPrev, Function.update_self, ne_eq,
          not_true_eq_false, Function.update_of_ne hyx, hprev_y, run_setChild]
        refine hdelete _ ⟨rfl, rfl, rfl⟩
          (h.relink_instead hp hx hplace ⟨rfl, rfl, rfl⟩ rfl ?_ ?_ (by simp))
        · exact Siblings.singleton (by simp [hyx.symm]) (by simp [hyx.symm])
        · intro a _ hay hax _
          simp [hay, hax]
    | cons w t =>
        have hw := halloc w (by simp)
        have hwy : w ≠ y := hne w (by simp)
        have hwx : w ≠ x := hxne' w (by simp)
        have hlast : (w :: t).getLast? ≠ some y := fun heq => hne y (List.mem_of_getLast? heq) rfl
        have hprev_y : nodes.prev y = (w :: t).getLast? := by
          simpa [List.getLast?_cons_cons] using hprev
        simp only [cjsonReplaceItemViaPointer, reduceCtorEq, or_self, ↓reduceIte, Prog.run_bind,
          run_load, hp, hchild, List.nil_append, List.head?_cons, Option.some.injEq, hyx.symm, hy,
          hnext, run_setNext, hxall, hw, run_setPrev, Function.update_self, ne_eq,
          not_false_eq_true, Function.update_of_ne hyx, Function.update_of_ne hwy.symm, hprev_y,
          hlast, run_setChild]
        refine hdelete _ ⟨rfl, rfl, rfl⟩
          (h.relink_instead hp hx hplace ⟨rfl, rfl, rfl⟩ rfl ?_ ?_ (by simp))
        · refine Siblings.replace (hsib : Siblings _ _ ([] ++ y :: w :: t)) hnodup ?_ ?_ ?_ ?_ ?_ ?_ ?_
          · simp [hyx.symm, hnext]
          · simp [hyx.symm, hwx.symm, hprev_y]
          · simp
          · simp [hwy]
          · simp
          · exact fun a ha _ => by simp [hne a ha, hxne' a ha]
          · intro a ha haw _
            have haw : a ≠ w := fun heq => haw (by simp [heq])
            simp [hne a ha, hxne' a ha, haw]
        · intro a _ hay hax hat
          have haw : a ≠ w := fun heq => hat (by simp [heq])
          simp [hay, hax, haw]
  · obtain ⟨c, hc⟩ : ∃ c, (k ++ [z]).head? = some c := ⟨_, List.head?_eq_some_head (by simp)⟩
    have hcmem : c ∈ k ++ [z] := List.mem_of_mem_head? hc
    have hhead : ∀ l, (k ++ [z] ++ l).head? = some c :=
      fun l => by rw [List.head?_append, hc, Option.some_or]
    have hcy : c ≠ y := hne c (List.mem_append_left _ hcmem)
    have hzy : z ≠ y := hne z (by simp)
    have hzx : z ≠ x := hxne' z (by simp)
    have hcx : c ≠ x := hxne' c (List.mem_append_left _ hcmem)
    have hz := halloc z (by simp)
    have hcalloc := halloc c (List.mem_append_left _ hcmem)
    have hprev_y : nodes.prev y = some z := by simpa using hprev
    cases l₂ with
    | nil =>
        simp only [cjsonReplaceItemViaPointer, reduceCtorEq, or_self, ↓reduceIte, Prog.run_bind,
          run_load, hp, hchild, hhead, Option.some.injEq, hyx.symm, hy, hnext, List.head?_nil,
          run_setNext, hxall, run_setPrev, Function.update_self, ne_eq, not_true_eq_false,
          not_false_eq_true, hcy, hprev_y, hz, hcalloc, Function.update_of_ne hzx.symm]
        refine hdelete _ ⟨rfl, rfl, rfl⟩
          (h.relink_instead hp hx hplace ⟨rfl, rfl, rfl⟩ ?_ ?_ ?_ (by simp))
        · rw [hhead, ← hhead [y], ← hchild, Function.update_eq_self]
        · refine Siblings.replace hsib hnodup ?_ ?_ ?_ ?_ ?_ ?_ ?_
          · simp [hyx.symm, hzx.symm, hnext]
          · simp [hyx.symm, hcx.symm, hprev_y]
          · simp [hzy]
          · simp
          · simp [hc, hcy]
          · intro a ha haz
            have haz : a ≠ z := fun heq => haz (by simp [heq])
            simp [hne a ha, hxne' a ha, haz]
          · intro a ha _ hac
            have hac : a ≠ c := fun heq => hac rfl (by rw [heq, hc])
            simp [hne a ha, hxne' a ha, hac]
        · intro a hak hay hax _
          have haz : a ≠ z := fun heq => hak (by simp [heq])
          have hac : a ≠ c := fun heq => hak (heq ▸ hcmem)
          simp [haz, hac, hay, hax]
    | cons w t =>
        have hw := halloc w (by simp)
        have hwy : w ≠ y := hne w (by simp)
        have hwx : w ≠ x := hxne' w (by simp)
        simp only [cjsonReplaceItemViaPointer, reduceCtorEq, or_self, ↓reduceIte, Prog.run_bind,
          run_load, hp, hchild, hhead, Option.some.injEq, hyx.symm, hy, hnext, List.head?_cons,
          run_setNext, hxall, run_setPrev, Function.update_self, ne_eq, not_false_eq_true, hcy,
          hprev_y, hz, hw, Function.update_of_ne hzx.symm, Function.update_of_ne hwx.symm]
        refine hdelete _ ⟨rfl, rfl, rfl⟩
          (h.relink_instead hp hx hplace ⟨rfl, rfl, rfl⟩ ?_ ?_ ?_ (by simp))
        · rw [hhead, ← hhead (y :: w :: t), ← hchild, Function.update_eq_self]
        · refine Siblings.replace hsib hnodup ?_ ?_ ?_ ?_ ?_ ?_ ?_
          · simp [hyx.symm, hzx.symm, hnext]
          · simp [hyx.symm, hwx.symm, hprev_y]
          · simp [hzy]
          · simp [hwy]
          · simp
          · intro a ha haz
            have haz : a ≠ z := fun heq => haz (by simp [heq])
            simp [hne a ha, hxne' a ha, haz]
          · intro a ha haw _
            have haw : a ≠ w := fun heq => haw (by simp [heq])
            simp [hne a ha, hxne' a ha, haw]
        · intro a hak hay hax hat
          have haz : a ≠ z := fun heq => hak (by simp [heq])
          have haw : a ≠ w := fun heq => hat (by simp [heq])
          simp [haz, haw, hay, hax]

/-- A child that has given its place away is nobody's child. -/
theorem root_of_replaced {alive : Ptr → Prop} (hf : Forest alive children)
    (hl : children p = l₁ ++ y :: l₂) (hyx : y ≠ x) (q : Ptr) :
    y ∉ Function.update children p (l₁ ++ x :: l₂) q := by
  by_cases hq : q = p
  · subst hq
    have hnodup := hf.nodup q
    rw [hl] at hnodup
    have hmem := (List.nodup_cons.mp (List.nodup_middle.mp hnodup)).1
    simp only [List.mem_append, not_or] at hmem
    simp [hmem, hyx]
  · rw [Function.update_of_ne hq]
    exact fun hy => hq (hf.unique y q p hy (by simp [hl]))

/-- The replacement takes the place of the item, and then the tree of the item is freed. -/
theorem cjsonReplaceItemViaPointer_spec {alive : Ptr → Prop} (hf : Forest alive children)
    (hp : alive p) (hx : alive x) (hroot : ∀ q, x ∉ children q) (habove : ¬Within children p x)
    (hl : children p = l₁ ++ y :: l₂) :
    ∃ N, ∀ n ≥ N, ∀ nodes : Nodes Ptr, nodes.Holds children →
      (∀ a, nodes.allocated a = true ↔ alive a) →
      ((cjsonReplaceItemViaPointer n (some p) (some y) (some x)).run nodes).Post
        (fun r nodes' => r = true ∧ ∃ nodes₁, nodes.SameData nodes₁ ∧
          nodes₁.Holds (Function.update children p (l₁ ++ x :: l₂)) ∧
          nodes₁.Freed (Function.update children p (l₁ ++ x :: l₂)) y nodes') fun _ _ => False := by
  have hmem : ∀ a ∈ l₁ ++ x :: l₂, a ∈ children p ∨ a = x := by
    intro a ha
    rw [hl]
    simp only [List.mem_append, List.mem_cons] at ha ⊢
    tauto
  have hy : y ∈ children p := by simp [hl]
  have hyx : y ≠ x := fun heq => hroot p (heq ▸ hy)
  have hnodup : (l₁ ++ x :: l₂).Nodup := by
    have hold := hf.nodup p
    rw [hl] at hold
    refine List.nodup_middle.mpr
      (List.nodup_cons.mpr ⟨fun hmem' => hroot p ?_, (List.nodup_middle.mp hold).of_cons⟩)
    rw [hl]
    simp only [List.mem_append, List.mem_cons] at hmem' ⊢
    tauto
  have hf₁ : Forest alive (Function.update children p (l₁ ++ x :: l₂)) := by
    refine hf.update hp hnodup (fun a ha => ?_) fun a ha => ?_
    · rcases hmem a ha with ha | rfl
      · exact (hf.alive a p ha).1
      · exact hx
    · rcases hmem a ha with ha | rfl
      · exact .inl ha
      · exact .inr ⟨hroot, habove⟩
  obtain ⟨N, hN⟩ := cjsonDelete_spec hf₁ y
  refine ⟨N, fun n hn nodes h halive => ?_⟩
  refine cjsonReplaceItemViaPointer_post h ((halive p).mpr hp) ⟨(halive x).mpr hx, hroot, habove⟩ hl ?_
  intro nodes₁ hdata hholds
  have hyalloc : nodes₁.allocated y = true := by
    rw [hdata.allocated]
    exact h.allocated_of_mem hy
  refine Prog.post_bind (hN n hn nodes₁ hholds hyalloc (root_of_replaced hf hl hyx))
    fun _ nodes' hfreed => ?_
  exact ⟨rfl, nodes₁, hdata, hholds, hfreed⟩

/-! ## Fuel -/

omit [DecidableEq Ptr] in
theorem getObjectItemLoop_mono (name : CStr) (caseSensitive : Bool) (p : Option Ptr) :
    Prog.FuelMono fun n => getObjectItemLoop name caseSensitive n p := by
  intro n
  induction n generalizing p with
  | zero => exact .of_stop _ _
  | succ n ih =>
      cases p with
      | none => exact .refl _
      | some a =>
          simp only [getObjectItemLoop]
          exact .after fun string => .ite (.after ih) (.refl _)

omit [DecidableEq Ptr] in
theorem getObjectItem_mono (object : Option Ptr) (name : Option CStr) (caseSensitive : Bool) :
    Prog.FuelMono fun n => getObjectItem n object name caseSensitive := by
  intro n
  cases name with
  | none => exact .refl _
  | some name =>
      refine .ite (.refl _) (.after fun child => ?_)
      exact .bind (getObjectItemLoop_mono name caseSensitive child n) fun _ => .refl _

theorem cjsonDelete_mono (p : Option Ptr) : Prog.FuelMono fun n => cjsonDelete n p := by
  intro n
  induction n generalizing p with
  | zero => exact .of_stop _ _
  | succ n ih =>
      cases p with
      | none => exact .refl _
      | some a =>
          simp only [cjsonDelete]
          refine .after fun next => .after fun child => .ite (.bind (ih child) fun _ => ?_) ?_
          · exact .after fun _ => ih next
          · exact .after fun _ => ih next

theorem cjsonReplaceItemViaPointer_mono (parent item replacement : Option Ptr) :
    Prog.FuelMono fun n => cjsonReplaceItemViaPointer n parent item replacement := by
  intro n
  have hdelete := cjsonDelete_mono item n
  unfold cjsonReplaceItemViaPointer
  dsimp only
  -- only the call of `cJSON_Delete` uses fuel
  repeat' with_reducible first
    | exact .bind hdelete fun _ => .refl _
    | exact .refl _
    | refine .ite ?_ ?_
    | refine .after fun _ => ?_

theorem replaceItemInObject_mono (object : Option Ptr) (string : Option CStr)
    (replacement : Option Ptr) (caseSensitive : Bool) :
    Prog.FuelMono fun n => replaceItemInObject n object string replacement caseSensitive := by
  intro n
  refine .ite (.refl _) (.after fun _ => .bind (getObjectItem_mono object string caseSensitive n)
    fun item => ?_)
  exact cjsonReplaceItemViaPointer_mono object item replacement n

end Nodes

end CppJson
