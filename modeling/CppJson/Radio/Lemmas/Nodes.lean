import CppJson.CJson.Lemmas.Tree
import CppJson.Radio.Nodes
import CppJson.Radio.Lemmas.Display

/-!
# What `Display` does to the nodes of a document

A call of `Display` leaves memory with the nodes of the changed document and no others
(`displayNodes_spec`). When there is no memory for the new member the document stays as it was.
-/

namespace CppJson

open Nodes Shape

/-! ## The document -/

section Document

variable {item e : Item} {v : CStr} {i : ℕ}

theorem displayRoot_of_missing (h : getObjectItem (some item) jsonKey false = none) (v : CStr) :
    displayRoot (some item) v = some (item.withChild (item.child ++ [stateMember v])) := by
  simp only [displayRoot, cjsonGetObjectItem, h]
  rfl

theorem displayRoot_of_null (h : getObjectItem (some item) jsonKey false = some i)
    (he : item.child[i]? = some e) (hnull : e.kind = .null) (v : CStr) :
    displayRoot (some item) v = some (item.withChild (item.child ++ [stateMember v])) := by
  simp only [displayRoot, cjsonGetObjectItem, h, Option.bind_eq_bind, Option.bind_some, he, hnull]
  rfl

theorem displayRoot_of_notNull (h : getObjectItem (some item) jsonKey false = some i)
    (he : item.child[i]? = some e) (hnull : e.kind ≠ .null) (v : CStr) :
    displayRoot (some item) v = some (item.withChild (item.child.set i (stateMember v))) := by
  simp only [displayRoot, cjsonGetObjectItem, h, Option.bind_eq_bind, Option.bind_some, he,
    cjsonReplaceItemInObject, replaceItemInObject]
  rfl

theorem exists_of_getObjectItem (h : getObjectItem (some item) jsonKey false = some i) :
    ∃ e, item.child[i]? = some e := by
  rw [getObjectItem_eq, Option.bind_eq_some_iff] at h
  obtain ⟨j, -, h⟩ := h
  obtain ⟨e, he, h⟩ := Option.bind_eq_some_iff.mp h
  split at h
  · cases h
  · cases h
    exact ⟨e, he⟩

end Document

/-! ## Sizes -/

theorem sizes_append (l₁ l₂ : List Item) : sizes (l₁ ++ l₂) = sizes l₁ + sizes l₂ := by
  induction l₁ with
  | nil => simp [sizes]
  | cons e l₁ ih => rw [List.cons_append, sizes, sizes, ih, Nat.add_assoc]

theorem sizes_record_le (v : CStr) (child : List Item) : sizes (record v child) ≤ sizes child + 1 := by
  have hstate : (stateMember v).size = 1 := rfl
  have hupsert : ∀ l : List Item, sizes (upsert namesKey (stateMember v) l) ≤ sizes l + 1 := by
    intro l
    induction l with
    | nil => simp [upsert, sizes, hstate]
    | cons e l ih =>
        rw [upsert]
        split
        · rw [sizes, sizes, hstate]
          omega
        · rw [sizes, sizes]
          omega
  unfold record
  split
  · rw [sizes_append, sizes, sizes, hstate]
  · exact hupsert child

theorem size_withChild (item : Item) (child : List Item) :
    (item.withChild child).size = 1 + sizes child := by
  cases item
  rfl

theorem size_eq (item : Item) : item.size = 1 + sizes item.child := by
  cases item
  rfl

/-- A document grows by one node at most with every value. -/
theorem size_foldl_displayRoot {vs : List CStr} {item item' : Item}
    (h : vs.foldl displayRoot (some item) = some item') :
    item'.size ≤ item.size + vs.length := by
  induction vs generalizing item with
  | nil =>
      cases h
      exact le_rfl
  | cons v vs ih =>
      rw [List.foldl_cons, displayRoot_eq] at h
      have := ih h
      have := sizes_record_le v item.child
      rw [size_withChild] at *
      rw [size_eq item, List.length_cons]
      omega

/-- A document whose first match is not `null` grows by one node at most, however many values there
are. -/
theorem size_foldl_displayRoot_of_notNull {vs : List CStr} {item item' : Item}
    (hfirst : FirstNotNull item.child) (h : vs.foldl displayRoot (some item) = some item') :
    item'.size ≤ item.size + 1 := by
  rcases vs.eq_nil_or_concat' with rfl | ⟨pre, v, rfl⟩
  · cases h
    omega
  · have hpre : ∀ pre : List CStr, pre.foldl displayRoot (some item) = some item ∨
        ∃ w, pre.foldl displayRoot (some item) = some (item.withChild (record w item.child)) := by
      intro pre
      induction pre using List.reverseRecOn with
      | nil => exact .inl rfl
      | append_singleton pre w ih =>
          rw [List.foldl_append]
          rcases ih with ih | ⟨u, ih⟩
          · exact .inr ⟨w, by rw [ih, List.foldl_cons, displayRoot_eq]; rfl⟩
          · refine .inr ⟨w, ?_⟩
            rw [ih, List.foldl_cons, displayRoot_eq, Item.child_withChild, record_record hfirst,
              Item.withChild_withChild]
            rfl
    have := size_eq item
    rcases hpre (pre ++ [v]) with heq | ⟨w, heq⟩
    · rw [heq] at h
      cases h
      omega
    · rw [heq] at h
      cases h
      have := sizes_record_le w item.child
      rw [size_withChild]
      omega

/-! ## One call -/

variable {Ptr : Type} [DecidableEq Ptr] {A : Allocator Ptr} {nodes : Nodes Ptr} {s : Shape Ptr}
  {p : Ptr} {item : Item}

/-- A new node for a string, if there is memory. -/
theorem cjsonCreateString_spec (h : nodes.Represents s) (v : CStr) :
    (A.malloc nodes = none ∧ (Nodes.cjsonCreateString A v).run nodes = .ok none nodes) ∨
      ∃ x nodes', ¬s.live x ∧ (Nodes.cjsonCreateString A v).run nodes = .ok (some x) nodes' ∧
        nodes'.Represents (s.create x (.string v)) := by
  simp only [Nodes.cjsonCreateString, Nodes.Allocator.allocate, Prog.run_bind, Prog.run_get,
    Prog.run_pure]
  cases hx : A.malloc nodes with
  | none => exact .inl ⟨rfl, rfl⟩
  | some x =>
      have hdead : ¬s.live x := by simp [← h.live, A.fresh nodes x hx]
      obtain ⟨nodes', hrun, h'⟩ := (refines_create hdead (.string v)).run h
      exact .inr ⟨x, nodes', hdead, hrun, h'⟩

/-- Adding a new member to a document, or leaving it as it is when there is no memory. -/
theorem cjsonAddStringToObject_spec (h : nodes.Represents s) (hdoc : Only s p item) (v : CStr) :
    ∃ r nodes' s' item', Prog.Settles (fun n => Nodes.cjsonAddStringToObject A n (some p) jsonKey v)
      nodes r nodes' ∧
      nodes'.Represents s' ∧ Only s' p item' ∧
      (A.malloc nodes = none ∧ item' = item ∨
        item' = item.withChild (item.child ++ [stateMember v])) := by
  have hs : s.Realized := ⟨nodes, h⟩
  have hp : s.live p := (hdoc.live p).mpr .refl
  rcases cjsonCreateString_spec (A := A) h v with ⟨hnone, hrun⟩ | ⟨x, nodes₁, hx, hrun, h₁⟩
  · refine ⟨none, nodes, s, item, .after hrun ?_, h, hdoc, .inl ⟨hnone, rfl⟩⟩
    refine ⟨1, fun n hn => ?_⟩
    obtain ⟨n, rfl⟩ : ∃ k, n = k + 1 := ⟨n - 1, by omega⟩
    simp [Nodes.addItemToObject, Nodes.cjsonDelete, Prog.run_bind]
  · have hs₁ : (s.create x (.string v)).Realized := ⟨nodes₁, h₁⟩
    have hadd := addable_create hs hx hp (.string v)
    obtain ⟨nodes₂, hrun₂, h₂⟩ :=
      (refines_addItemToObject (Or.inr hp : (s.create x _).live p) hadd jsonKey).run h₁
    refine ⟨some x, nodes₂, _, _, .after hrun (.after hrun₂ (.of_run rfl)), h₂, ?_, .inr rfl⟩
    exact only_addItemToObject hs₁ (hdoc.tree.create (not_within_of_dead hs hx hp))
      (tree_create x _) hadd (live_create hs hx hdoc _) jsonKey

/-- Putting a new member in the place of an old one, or leaving the document as it is when there is
no memory. -/
theorem replaceMember_spec (h : nodes.Represents s) (hdoc : Only s p item) (v : CStr) {i : ℕ}
    (hi : getObjectItem (some item) jsonKey false = some i) :
    ∃ nodes' s' item', Prog.Settles (fun n => do
        let newitem ← Nodes.cjsonCreateString A v
        let _ ← Nodes.replaceItemInObject n (some p) (some jsonKey) newitem false) nodes () nodes' ∧
      nodes'.Represents s' ∧ Only s' p item' ∧
      (A.malloc nodes = none ∧ item' = item ∨
        item' = item.withChild (item.child.set i (stateMember v))) := by
  have hs : s.Realized := ⟨nodes, h⟩
  have hp : s.live p := (hdoc.live p).mpr .refl
  rcases cjsonCreateString_spec (A := A) h v with ⟨hnone, hrun⟩ | ⟨x, nodes₁, hx, hrun, h₁⟩
  · refine ⟨nodes, s, item, .after hrun ⟨0, fun n _ => ?_⟩, h, hdoc, .inl ⟨hnone, rfl⟩⟩
    simp [Nodes.replaceItemInObject, Prog.run_bind]
  · have hs₁ : (s.create x (.string v)).Realized := ⟨nodes₁, h₁⟩
    have hadd := addable_create hs hx hp (.string v)
    obtain ⟨e, he⟩ := exists_of_getObjectItem hi
    obtain ⟨y, hy, -⟩ := hdoc.tree.child_at he
    have hmember : (s.create x (.string v)).member p jsonKey false = some y := by
      rw [member_create hs hx, hdoc.tree.member_eq, hi, Option.bind_some, hy]
    obtain ⟨nodes₂, hrun₂, h₂⟩ :=
      (refines_replaceItemInObject hs₁ (Or.inr hp : (s.create x _).live p)
        hadd jsonKey false).settles (replaceItemInObject_mono _ _ _ _) h₁
    rw [hmember] at h₂
    refine ⟨nodes₂, _, _, .after hrun (hrun₂.bind (.of_run rfl)), h₂, ?_, .inr rfl⟩
    exact only_replace hs₁ (hdoc.tree.create (not_within_of_dead hs hx hp)) (tree_create x _) hadd
      (live_create hs hx hdoc _) jsonKey (by rw [children_create hs hx, hy])

/-- What `Display` leaves in memory. -/
theorem displayNodes_spec (h : nodes.Represents s) (hdoc : Only s p item) (v : CStr) :
    ∃ nodes' s' item', Prog.Settles (fun n => displayNodes A n (some p) v) nodes () nodes' ∧
      nodes'.Represents s' ∧
      Only s' p item' ∧
      ((∃ nodes₁ : Nodes Ptr, nodes₁.Represents s ∧ A.malloc nodes₁ = none) ∧ item' = item ∨
        displayRoot (some item) v = some item') := by
  have hp : s.live p := (hdoc.live p).mpr .refl
  obtain ⟨nodes₁, hfind, h₁⟩ :=
    (refines_getObjectItem hp jsonKey false).settles (getObjectItem_mono _ _ _) h
  rw [hdoc.tree.member_eq] at hfind
  unfold displayNodes
  cases hi : getObjectItem (some item) jsonKey false with
  | none =>
      rw [hi] at hfind
      obtain ⟨r, nodes', s', item', hrun, h', hdoc', hres⟩ :=
        cjsonAddStringToObject_spec (A := A) h₁ hdoc v
      refine ⟨nodes', s', item', hfind.bind (.after (a := true) rfl (hrun.bind (.of_run rfl))),
        h', hdoc', ?_⟩
      rcases hres with ⟨hnone, rfl⟩ | rfl
      · exact .inl ⟨⟨nodes₁, h₁, hnone⟩, rfl⟩
      · exact .inr (displayRoot_of_missing hi v)
  | some i =>
      obtain ⟨e, he⟩ := exists_of_getObjectItem hi
      obtain ⟨y, hy, hye⟩ := hdoc.tree.child_at he
      rw [hi, Option.bind_some, hy] at hfind
      have hload : (load Nodes.kind (some y)).run nodes₁ = .ok e.kind nodes₁ := by
        rw [run_load _ (h₁.holds.allocated_of_mem (List.mem_of_getElem? hy)), h₁.kind, hye.kind_eq]
      by_cases hnull : e.kind = .null
      · obtain ⟨r, nodes', s', item', hrun, h', hdoc', hres⟩ :=
          cjsonAddStringToObject_spec (A := A) h₁ hdoc v
        refine ⟨nodes', s', item',
          hfind.bind (.after (a := true) (t := nodes₁) ?_ (hrun.bind (.of_run rfl))), h', hdoc', ?_⟩
        · simp [missingOrNull, Prog.run_bind, hload, hnull]
        · rcases hres with ⟨hnone, rfl⟩ | rfl
          · exact .inl ⟨⟨nodes₁, h₁, hnone⟩, rfl⟩
          · exact .inr (displayRoot_of_null hi he hnull v)
      · obtain ⟨nodes', s', item', hrun, h', hdoc', hres⟩ := replaceMember_spec (A := A) h₁ hdoc v hi
        refine ⟨nodes', s', item', hfind.bind (.after (a := false) (t := nodes₁) ?_ hrun),
          h', hdoc', ?_⟩
        · simp [missingOrNull, Prog.run_bind, hload]
        · rcases hres with ⟨hnone, rfl⟩ | rfl
          · exact .inl ⟨⟨nodes₁, h₁, hnone⟩, rfl⟩
          · exact .inr (displayRoot_of_notNull hi he hnull v)

/-! ## Runs -/

/-- The values for which there was memory are displayed, one after the other. -/
theorem displayAllNodes_spec (h : nodes.Represents s) (hdoc : Only s p item) (vs : List CStr) :
    ∃ nodes' s' item' kept, Prog.Settles (fun n => displayAllNodes A n (some p) vs) nodes () nodes' ∧
      nodes'.Represents s' ∧ Only s' p item' ∧ kept.Sublist vs ∧
        kept.foldl displayRoot (some item) = some item' ∧
      ∀ m, A.Room m → (∀ pre post item₁, vs = pre ++ post → post ≠ [] →
        pre.foldl displayRoot (some item) = some item₁ → item₁.size < m) → kept = vs := by
  induction vs generalizing nodes s item with
  | nil => exact ⟨nodes, s, item, [], .of_run rfl, h, hdoc, .slnil, rfl, fun _ _ _ => rfl⟩
  | cons v vs ih =>
      obtain ⟨nodes₁, s₁, item₁, hrun₁, h₁, hdoc₁, hres⟩ := displayNodes_spec (A := A) h hdoc v
      obtain ⟨nodes', s', item', kept, hrun, h', hdoc', hsub, hfold, hall⟩ := ih h₁ hdoc₁
      have hstep : Prog.Settles (fun n => displayAllNodes A n (some p) (v :: vs)) nodes () nodes' :=
        hrun₁.bind (g := fun n _ => displayAllNodes A n (some p) vs) hrun
      rcases hres with ⟨⟨nodes₂, h₂, hnone⟩, rfl⟩ | hdisplay
      · refine ⟨nodes', s', item', kept, hstep, h', hdoc', hsub.cons v, hfold, fun m hm hsize => ?_⟩
        -- the nodes of the document left no room for one more
        obtain ⟨l, hl, hlen⟩ := hdoc.nodes ⟨nodes, h⟩
        have hlt := hsize [] (v :: vs) item₁ rfl (by simp) rfl
        exact absurd hnone (hm.node nodes₂ l (fun a ha => (hl a).mp ((h₂.live a).mp ha)) (by omega))
      · refine ⟨nodes', s', item', v :: kept, hstep, h', hdoc', hsub.cons_cons v, ?_,
          fun m hm hsize => ?_⟩
        · rw [List.foldl_cons, hdisplay, hfold]
        · rw [hall m hm]
          intro pre post item₂ hvs hpost hfold₂
          refine hsize (v :: pre) post item₂ (by rw [hvs]; rfl) hpost ?_
          rw [List.foldl_cons, hdisplay, hfold₂]

end CppJson
