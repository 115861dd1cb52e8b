import CppJson.CJson.Layout
import CppJson.CJson.Lemmas.Nodes

/-!
# Trees in memory stay where they are

What happens to other nodes leaves a tree as it was (`Laid.congr`, `item_congr`), and `cJSON_Delete`
frees the nodes of a chain of trees and changes nothing else (`cjsonDelete_laid`).
-/

namespace CppJson

namespace Nodes

variable {Ptr : Type} {nodes nodes' nodes'' : Nodes Ptr} {a p : Ptr} {t : Rose Ptr}
  {ts us : List (Rose Ptr)}

open Rose

theorem SameNode.refl (nodes : Nodes Ptr) (a : Ptr) : nodes.SameNode nodes a := ⟨rfl, rfl, rfl, rfl⟩

theorem SameAt.refl (nodes : Nodes Ptr) (a : Ptr) : nodes.SameAt nodes a := ⟨.refl nodes a, rfl, rfl⟩

theorem SameNode.trans (h : nodes.SameNode nodes' a) (h' : nodes'.SameNode nodes'' a) :
    nodes.SameNode nodes'' a :=
  ⟨h'.allocated.trans h.allocated, h'.child.trans h.child, h'.kind.trans h.kind,
    h'.string.trans h.string⟩

theorem SameAt.trans (h : nodes.SameAt nodes' a) (h' : nodes'.SameAt nodes'' a) :
    nodes.SameAt nodes'' a :=
  ⟨h.toSameNode.trans h'.toSameNode, h'.next.trans h.next, h'.prev.trans h.prev⟩

/-! ## Frame -/

theorem laidAll_iff : nodes.LaidAll ts ↔ ∀ t ∈ ts, nodes.Laid t := by
  induction ts with
  | nil => simp [LaidAll]
  | cons t ts ih => rw [LaidAll, ih, List.forall_mem_cons]

mutual
theorem Laid.congr : {t : Rose Ptr} → nodes.Laid t → nodes.SameNode nodes' t.root →
    (∀ a ∈ flat t.branches, nodes.SameAt nodes' a) → nodes'.Laid t
  | .node _ ts, ⟨halloc, hchild, hsib, hts⟩, hroot, hsame => by
      refine ⟨hroot.allocated.trans halloc, hroot.child.trans hchild, hsib.congr ?_ ?_, hts.congr hsame⟩
      · exact fun a ha => (hsame a ((roots_sublist ts).subset ha)).next
      · exact fun a ha => (hsame a ((roots_sublist ts).subset ha)).prev

theorem LaidAll.congr :
    {ts : List (Rose Ptr)} → nodes.LaidAll ts → (∀ a ∈ flat ts, nodes.SameAt nodes' a) →
    nodes'.LaidAll ts
  | [], _, _ => trivial
  | .node p us :: ts, ⟨ht, hts⟩, hsame => by
      rw [flat_cons, toList_node, List.cons_append, List.forall_mem_cons] at hsame
      refine ⟨ht.congr hsame.1.toSameNode ?_, hts.congr ?_⟩
      · exact fun a ha => hsame.2 a (List.mem_append_left _ ha)
      · exact fun a ha => hsame.2 a (List.mem_append_right _ ha)
end

mutual
theorem item_congr :
    {t : Rose Ptr} → (∀ a ∈ t.toList, nodes.SameNode nodes' a) → nodes'.item t = nodes.item t
  | .node p ts, hsame => by
      rw [toList_node, List.forall_mem_cons] at hsame
      rw [item, item, hsame.1.kind, hsame.1.string, items_congr hsame.2]

theorem items_congr : {ts : List (Rose Ptr)} → (∀ a ∈ flat ts, nodes.SameNode nodes' a) →
    nodes'.items ts = nodes.items ts
  | [], _ => rfl
  | t :: ts, hsame => by
      rw [flat_cons, List.forall_mem_append] at hsame
      rw [items, items, item_congr hsame.1, items_congr hsame.2]
end

mutual
theorem Laid.allocated {a : Ptr} :
    {t : Rose Ptr} → nodes.Laid t → a ∈ t.toList → nodes.allocated a = true
  | .node p ts, ⟨halloc, _, _, hts⟩, ha => by
      rcases List.mem_cons.mp ha with rfl | ha
      · exact halloc
      · exact hts.allocated ha

theorem LaidAll.allocated {a : Ptr} : {ts : List (Rose Ptr)} → nodes.LaidAll ts → a ∈ flat ts →
    nodes.allocated a = true
  | t :: ts, ⟨ht, hts⟩, ha => by
      rcases List.mem_append.mp ha with ha | ha
      · exact ht.allocated ha
      · exact hts.allocated ha
end

/-! ## Deleting -/

section Release

variable [DecidableEq Ptr] {l₁ l₂ : List Ptr}

@[simp] theorem release_nil (nodes : Nodes Ptr) : nodes.release [] = nodes := by simp [release]

theorem release_append : nodes.release (l₁ ++ l₂) = (nodes.release l₁).release l₂ := by
  simp [release, Bool.and_assoc]

theorem sameAt_release (ha : a ∉ l₁) : nodes.SameAt (nodes.release l₁) a := by
  refine ⟨⟨?_, rfl, rfl, rfl⟩, rfl, rfl⟩
  simp [release, ha]

theorem allocated_release :
    (nodes.release l₁).allocated a = true ↔ nodes.allocated a = true ∧ a ∉ l₁ := by
  simp [release]

theorem run_deallocate (hp : (nodes.release l₁).allocated p = true) :
    (deallocate (some p)).run (nodes.release l₁) = .ok () (nodes.release (p :: l₁)) := by
  have hupdate : Function.update (nodes.release l₁).allocated p false =
      (nodes.release (p :: l₁)).allocated := by
    funext a
    by_cases ha : a = p <;> simp [release, ha]
  rw [deallocate, Prog.run_bind_ok (run_deref hp), Prog.run_modify, hupdate]
  rfl

/-- Deleting a chain of trees frees their nodes, with fuel for one more than there are. -/
theorem cjsonDelete_laid {n : ℕ} {before : Option Ptr} (h : nodes.LaidAll ts)
    (hseg : Segment nodes.next nodes.prev before (ts.map root) none) (hnodup : (flat ts).Nodup)
    (hn : (flat ts).length < n) :
    (cjsonDelete n (ts.map root).head?).run nodes = .ok () (nodes.release (flat ts)) := by
  induction n generalizing ts nodes before with
  | zero => cases hn
  | succ n ih =>
      cases ts with
      | nil => simp [cjsonDelete]
      | cons t ts =>
          obtain ⟨p, us⟩ := t
          obtain ⟨⟨halloc, hchild, hsib, hus⟩, hts⟩ := h
          obtain ⟨-, hnext, hseg⟩ := hseg
          rw [flat_cons, toList_node, List.cons_append, List.length_cons, List.length_append] at hn
          rw [flat_cons, toList_node, List.nodup_append, List.nodup_cons] at hnodup
          obtain ⟨⟨hp, hnodup_us⟩, hnodup_ts, hdisj⟩ := hnodup
          have hrun_us := ih hus hsib hnodup_us (by omega)
          have hdealloc : (deallocate (some p)).run (nodes.release (flat us)) =
              .ok () (nodes.release (p :: flat us)) :=
            run_deallocate (allocated_release.mpr ⟨halloc, hp⟩)
          -- what is freed is no part of the rest of the chain
          have hsame : ∀ a ∈ flat ts, nodes.SameAt (nodes.release (p :: flat us)) a :=
            fun a ha => sameAt_release fun hmem => hdisj a hmem a ha rfl
          have hrun_ts :=
            ih (hts.congr hsame) (hseg.congr (fun _ _ => rfl) fun _ _ => rfl) hnodup_ts (by omega)
          rw [Option.or_none, root_node] at hnext
          rw [List.map_cons, List.head?_cons, root_node, cjsonDelete,
            Prog.run_bind_ok (run_load _ halloc), Prog.run_bind_ok (run_load _ halloc), hchild,
            hnext, flat_cons, toList_node, release_append]
          · cases us with
            | nil =>
                rw [flat_nil, release_nil] at hdealloc
                simp only [List.map_nil, List.head?_nil, ne_eq, not_true_eq_false, ↓reduceIte,
                  Prog.run_bind, hdealloc]
                exact hrun_ts
            | cons u us =>
                rw [List.map_cons, List.head?_cons] at hrun_us ⊢
                simp only [ne_eq, reduceCtorEq, not_false_eq_true, ↓reduceIte, Prog.run_bind,
                  hrun_us, hdealloc]
                exact hrun_ts
          · simp

end Release

/-! ## Trees of a forest -/

variable {children : Ptr → List Ptr}

mutual
theorem Holds.laid (h : nodes.Holds children) :
    {t : Rose Ptr} → Spans children t → nodes.allocated t.root = true →
    nodes.Laid t
  | .node p _, ⟨hchildren, hts⟩, hp => by
      refine ⟨hp, hchildren ▸ h.child p hp, hchildren ▸ h.siblings p, h.laidAll hts ?_⟩
      exact fun r hr => h.allocated_of_mem (p := p) (hchildren ▸ hr)

theorem Holds.laidAll (h : nodes.Holds children) : {ts : List (Rose Ptr)} → SpansAll children ts →
    (∀ r ∈ ts.map root, nodes.allocated r = true) → nodes.LaidAll ts
  | [], _, _ => trivial
  | t :: ts, ⟨ht, hts⟩, hroots => by
      rw [List.map_cons, List.forall_mem_cons] at hroots
      exact ⟨h.laid ht hroots.1, h.laidAll hts hroots.2⟩
end

end Nodes

end CppJson
