import CppJson.CJson.Lemmas.ParseNodes
import CppJson.CJson.Lemmas.Tree

/-!
# New trees in memory

A tree that was made of free memory stands beside the trees that were there (`Chain.represents`).
-/

namespace CppJson

open Shape Rose

variable {Ptr : Type} {nodes nodes' : Nodes Ptr} {s : Shape Ptr} {children : Ptr → List Ptr} {a : Ptr}

/-- A new tree stands beside the trees that were there before. -/
structure Shape.Added (s s' : Shape Ptr) (p : Ptr) (item : Item) : Prop where
  tree : Tree s' p item
  root : ∀ q, p ∉ s'.children q
  live : ∀ a, s'.live a ↔ s.live a ∨ Within s'.children a p
  fresh : ∀ a, Within s'.children a p → ¬s.live a

namespace Nodes

mutual
theorem Laid.links : {t : Rose Ptr} → nodes.Laid t → Spans children t → a ∈ t.toList →
    nodes.child a = (children a).head? ∧ Siblings nodes.next nodes.prev (children a)
  | .node p ts, ⟨_, hchild, hsib, hlaid⟩, ⟨hchildren, hts⟩, ha => by
      rcases List.mem_cons.mp ha with rfl | ha
      · rw [hchildren]
        exact ⟨hchild, hsib⟩
      · exact LaidAll.links hlaid hts ha

theorem LaidAll.links : {ts : List (Rose Ptr)} → nodes.LaidAll ts → SpansAll children ts → a ∈ flat ts →
    nodes.child a = (children a).head? ∧ Siblings nodes.next nodes.prev (children a)
  | t :: ts, ⟨ht, hts⟩, ⟨hspans, hspansAll⟩, ha => by
      rcases List.mem_append.mp ha with ha | ha
      · exact Laid.links ht hspans ha
      · exact LaidAll.links hts hspansAll ha
end

mutual
theorem tree_item (hkind : s.kind = nodes.kind) (hname : s.name = nodes.string) :
    {t : Rose Ptr} → Spans s.children t → Tree s t.root (nodes.item t)
  | .node p _, ⟨hchildren, hts⟩ =>
      .of_children (hchildren ▸ trees_items hkind hname hts) (congrFun hkind p).symm
        (congrFun hname p).symm rfl

theorem trees_items (hkind : s.kind = nodes.kind) (hname : s.name = nodes.string) :
    {ts : List (Rose Ptr)} → SpansAll s.children ts → Trees s (ts.map root) (nodes.items ts)
  | [], _ => .nil
  | _ :: _, ⟨ht, hts⟩ => .cons (tree_item hkind hname ht) (trees_items hkind hname hts)
end

/-- Nodes whose links are those of a forest, beside nodes whose links are those of another. -/
theorem Chain.holds {t : Rose Ptr} (h : nodes.Holds s.children) (hc : Chain nodes nodes' [t])
    (hf : Forest (· ∈ t.toList) children) (hspans : Spans children t) :
    nodes'.Holds fun q => s.children q ++ children q := by
  have hflat : flat [t] = t.toList := List.append_nil _
  have hnew : ∀ a ∈ t.toList, nodes.allocated a = false := hflat ▸ hc.fresh
  have hold : ∀ q, nodes.allocated q = true → children q = [] := fun q hq =>
    hf.children_eq_nil fun hmem => by simp [hnew q hmem] at hq
  have hempty : ∀ q ∈ t.toList, s.children q = [] := fun q hq =>
    h.forest.children_eq_nil (by simp [hnew q hq])
  have halloc : ∀ q, nodes'.allocated q = true → nodes.allocated q = true ∨ q ∈ t.toList := fun q hq =>
    hflat ▸ (hc.allocated q).mp hq
  constructor
  · refine (h.forest.union hf fun a ha hmem => by simp [hnew a hmem] at ha).mono fun a ha => ?_
    exact (hc.allocated a).mpr (hflat.symm ▸ ha)
  · intro q hq
    rcases halloc q hq with hq | hq
    · rw [hold q hq, List.append_nil, (hc.same q hq).child, h.child q hq]
    · rw [hempty q hq, List.nil_append, (hc.laid.1.links hspans hq).1]
  · intro q
    by_cases hq : q ∈ t.toList
    · rw [hempty q hq, List.nil_append]
      exact (hc.laid.1.links hspans hq).2
    · rw [hf.children_eq_nil hq, List.append_nil]
      exact (h.siblings q).congr (fun a ha => (hc.same a (h.allocated_of_mem ha)).next)
        fun a ha => (hc.same a (h.allocated_of_mem ha)).prev
  · intro x hx hroot
    rcases halloc x hx with hx | hx
    · rw [(hc.same x hx).next, (hc.same x hx).prev]
      exact h.loose x hx fun q hq => hroot q (List.mem_append_left _ hq)
    · -- below the root every node has a parent
      have hxt : x = t.root := by
        rcases Relation.ReflTransGen.cases_head ((hspans.mem_iff).mp hx) with heq | ⟨q, hq, -⟩
        · exact heq
        · exact absurd (List.mem_append_right _ hq) (hroot q)
      rw [hxt]
      exact ⟨hc.links.2.1, hc.links.1⟩

/-- A tree that was made of free memory stands beside the trees that were there before. -/
theorem Chain.represents {t : Rose Ptr} (h : nodes.Represents s) (hc : Chain nodes nodes' [t]) :
    ∃ s', nodes'.Represents s' ∧ s.Added s' t.root (nodes'.item t) ∧ ∀ a, s.live a → s.SameAt s' a := by
  have hflat : flat [t] = t.toList := List.append_nil _
  obtain ⟨children, hf, hspans, hroot⟩ := exists_forest t (hflat ▸ hc.nodup)
  have hnew : ∀ a ∈ t.toList, nodes.allocated a = false := hflat ▸ hc.fresh
  have hholds := hc.holds h.holds hf hspans
  have hdead : ∀ a ∈ t.toList, ¬s.live a := fun a ha hlive => by
    have := (h.live a).mpr hlive
    simp [hnew a ha] at this
  have hspans' : Spans (fun q => s.children q ++ children q) t := hspans.congr fun a ha => by
    rw [(Shape.Realized.forest ⟨nodes, h⟩).children_eq_nil (hdead a ha), List.nil_append]
  refine ⟨⟨fun a => nodes'.allocated a = true, fun q => s.children q ++ children q, nodes'.kind,
    nodes'.string⟩, ⟨fun _ => .rfl, hholds, rfl, rfl⟩,
    ⟨tree_item rfl rfl hspans', fun q hq => ?_, fun a => ?_,
    fun a ha => hdead a (hspans'.mem_iff.mpr ha)⟩, fun a ha => ?_⟩
  · rcases List.mem_append.mp hq with hq | hq
    · exact hdead _ (root_mem t) ((Shape.Realized.forest ⟨nodes, h⟩).alive _ q hq).1
    · exact hroot q hq
  · dsimp only
    rw [hc.allocated a, hflat, h.live, hspans'.mem_iff]
  · have hsame := hc.same a ((h.live a).mpr ha)
    refine ⟨?_, hsame.kind.trans (congrFun h.kind a), hsame.string.trans (congrFun h.name a)⟩
    dsimp only
    rw [hf.children_eq_nil fun hmem => hdead a hmem ha, List.append_nil]

/-- Trees whose nodes were not written to are still there. -/
theorem Represents.untouched (h : nodes.Represents s)
    (halloc : ∀ a, nodes'.allocated a = true ↔ nodes.allocated a = true)
    (hsame : ∀ a, nodes.allocated a = true → nodes.SameAt nodes' a) :
    nodes'.Represents { s with kind := nodes'.kind, name := nodes'.string } ∧
      ∀ a, s.live a → s.SameAt { s with kind := nodes'.kind, name := nodes'.string } a := by
  have hlive : ∀ a, s.live a → nodes.SameAt nodes' a := fun a ha => hsame a ((h.live a).mpr ha)
  refine ⟨⟨fun a => (halloc a).trans (h.live a),
    ⟨?_, fun p hp => ?_, fun p => ?_, fun x hx hroot => ?_⟩, rfl, rfl⟩, fun a ha => ⟨rfl,
    (hlive a ha).kind.trans (congrFun h.kind a), (hlive a ha).string.trans (congrFun h.name a)⟩⟩
  · exact h.holds.forest.mono fun a ha => (halloc a).mpr ha
  · have hp := (halloc p).mp hp
    rw [(hsame p hp).child, h.holds.child p hp]
  · exact (h.holds.siblings p).congr (fun a ha => (hsame a (h.holds.allocated_of_mem ha)).next)
      fun a ha => (hsame a (h.holds.allocated_of_mem ha)).prev
  · have hx := (halloc x).mp hx
    rw [(hsame x hx).next, (hsame x hx).prev]
    exact h.holds.loose x hx hroot

/-- Memory with places for `m` nodes and all strings is not full before it has that many nodes. -/
theorem Starved.lt {A : Allocator Ptr} {n m : ℕ} {l : List Ptr} (h : nodes.Represents s)
    (hstarved : Starved A nodes n) (hroom : A.Room m) (hl : ∀ a, s.live a → a ∈ l) :
    m < l.length + n := by
  rcases hstarved with ⟨nodes₁, size, hnone⟩ | ⟨nodes₁, l', hnone, hlen, hl'⟩
  · simp [hroom.string] at hnone
  · have hnot := mt (hroom.node nodes₁ (l ++ l') fun a ha => ?_)
    · rw [List.length_append] at hnot
      have := hnot (by simp [hnone])
      omega
    · exact List.mem_append.mpr ((hl' a ha).imp_left fun ha => hl a ((h.live a).mp ha))

end Nodes

end CppJson
