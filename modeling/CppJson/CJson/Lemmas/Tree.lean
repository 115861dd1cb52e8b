import Mathlib.Data.List.Forall2
import CppJson.CJson.Lemmas.Shape
import CppJson.Lib.Rose

/-!
# The tree under a node

The tree of a node depends on nothing but the nodes of that tree (`Tree.congr`). Lookups by index
and by name find the same child in the tree and among the nodes.
-/

namespace CppJson

namespace Shape

variable {Ptr : Type} {s s' : Shape Ptr} {p x y : Ptr} {ps qs : List Ptr} {item item' : Item}
  {items items' : List Item}

theorem trees_iff : Trees s ps items ↔ List.Forall₂ (Tree s) ps items := by
  constructor
  · intro h
    induction ps generalizing items with
    | nil =>
        cases h
        exact .nil
    | cons p ps ih =>
        cases h with
        | cons hp hps => exact .cons hp (ih hps)
  · intro h
    induction h with
    | nil => exact .nil
    | cons hp _ ih => exact .cons hp ih

theorem Tree.children (h : Tree s p item) : Trees s (s.children p) item.child := by
  cases h with
  | mk h => exact h

theorem Tree.kind_eq (h : Tree s p item) : item.kind = s.kind p := by
  cases h
  rfl

theorem Tree.string_eq (h : Tree s p item) : item.string = s.name p := by
  cases h
  rfl

theorem Tree.of_children (h : Trees s (s.children p) items) (hkind : item.kind = s.kind p)
    (hname : item.string = s.name p) (hchild : item.child = items) : Tree s p item := by
  cases item
  simp only [Item.kind_mk, Item.string_mk, Item.child_mk] at hkind hname hchild
  subst hkind hname hchild
  exact .mk h

theorem Trees.append (h : Trees s ps items) (h' : Trees s qs items') :
    Trees s (ps ++ qs) (items ++ items') :=
  trees_iff.mpr (List.rel_append (trees_iff.mp h) (trees_iff.mp h'))

theorem Trees.singleton (h : Tree s p item) : Trees s [p] [item] := .cons h .nil

/-- Two shapes have the same node at `a`. -/
structure SameAt (s s' : Shape Ptr) (a : Ptr) : Prop where
  children : s'.children a = s.children a
  kind : s'.kind a = s.kind a
  name : s'.name a = s.name a

mutual
theorem Tree.congr {p : Ptr} {item : Item} :
    Tree s p item → (∀ a, Within s.children a p → s.SameAt s' a) →
    Tree s' p item
  | .mk h, hsame => by
      have hp := hsame p .refl
      rw [← hp.kind, ← hp.name]
      refine .mk (hp.children ▸ Trees.congr h fun q hq a ha => hsame a (ha.tail hq))

theorem Trees.congr {ps : List Ptr} {items : List Item} : Trees s ps items →
    (∀ p ∈ ps, ∀ a, Within s.children a p → s.SameAt s' a) → Trees s' ps items
  | .nil, _ => .nil
  | .cons hp hps, hsame =>
      .cons (Tree.congr hp (hsame _ List.mem_cons_self))
        (Trees.congr hps fun q hq => hsame q (List.mem_cons_of_mem _ hq))
end

/-! ## Lookups -/

/-- A child and its tree are in the same place. -/
theorem Trees.getElem? (h : Trees s ps items) {i : ℕ} (hp : ps[i]? = some p) :
    ∃ item, items[i]? = some item ∧ Tree s p item := by
  induction i generalizing ps items with
  | zero =>
      cases h with
      | nil => cases hp
      | cons hq _ =>
          rw [List.getElem?_cons_zero, Option.some.injEq] at hp
          exact ⟨_, rfl, hp ▸ hq⟩
  | succ i ih =>
      cases h with
      | nil => cases hp
      | cons _ hps => exact ih hps hp

theorem Trees.length_eq (h : Trees s ps items) : ps.length = items.length := by
  rw [trees_iff] at h
  exact h.length_eq

theorem Tree.child_at (h : Tree s p item) {i : ℕ} {e : Item} (he : item.child[i]? = some e) :
    ∃ y, (s.children p)[i]? = some y ∧ Tree s y e := by
  obtain ⟨hlt, -⟩ := List.getElem?_eq_some_iff.mp he
  have hy := List.getElem?_eq_getElem (l := s.children p) (h.children.length_eq ▸ hlt)
  obtain ⟨e', he', hy'⟩ := h.children.getElem? hy
  rw [he, Option.some.injEq] at he'
  exact ⟨_, hy, he' ▸ hy'⟩

theorem Trees.set (h : Trees s ps items) (hx : Tree s x item) (i : ℕ) :
    Trees s (ps.set i x) (items.set i item) := by
  induction i generalizing ps items with
  | zero =>
      cases h with
      | nil => exact .nil
      | cons _ hps => exact .cons hx hps
  | succ i ih =>
      cases h with
      | nil => exact .nil
      | cons hp hps => exact .cons hp (ih hps)

theorem Trees.map_string (h : Trees s ps items) : items.map Item.string = ps.map s.name := by
  rw [trees_iff] at h
  induction h with
  | nil => rfl
  | cons hp _ ih => rw [List.map_cons, List.map_cons, ih, hp.string_eq]

/-- Where a lookup by name stops. -/
def stop (name : CStr) (caseSensitive : Bool) (string : Option CStr) : Bool :=
  if caseSensitive then string = none ∨ string = some name
    else caseInsensitiveStrcmp (some name) string = 0

theorem getObjectItem_eq (item : Item) (name : CStr) (caseSensitive : Bool) :
    getObjectItem (some item) name caseSensitive =
      (item.child.findIdx? (stop name caseSensitive ∘ Item.string)).bind fun i =>
        item.child[i]?.bind fun e => if e.string = none then none else some i := by
  cases caseSensitive <;> rfl

/-- Looking a name up among the nodes finds the place that looking it up in the tree finds. -/
theorem Tree.member_eq (h : Tree s p item) (name : CStr) (caseSensitive : Bool) :
    s.member p name caseSensitive = (getObjectItem (some item) name caseSensitive).bind
      ((s.children p)[·]?) := by
  have hfind : (s.children p).findIdx? (stop name caseSensitive ∘ s.name) =
      item.child.findIdx? (stop name caseSensitive ∘ Item.string) := by
    rw [← List.findIdx?_map, ← List.findIdx?_map, h.children.map_string]
  have hstop : Nodes.stopsAt s.name name caseSensitive = stop name caseSensitive ∘ s.name := rfl
  rw [Shape.member, hstop, List.find?_eq_bind_findIdx?_getElem?, hfind, getObjectItem_eq]
  cases hi : item.child.findIdx? (stop name caseSensitive ∘ Item.string) with
  | none => rfl
  | some i =>
      obtain ⟨hlt, -⟩ := List.findIdx?_eq_some_iff_getElem.mp (hfind.trans hi)
      have hc := List.getElem?_eq_getElem hlt
      obtain ⟨e, he, ha⟩ := h.children.getElem? hc
      rw [Option.bind_some, Option.bind_some, he, Option.bind_some, ha.string_eq, hc]
      cases hname : s.name (s.children p)[i] <;> simp [Option.filter, hname, hc]

/-! ## Sizes -/

mutual
/-- A tree has as many nodes as its item has. -/
theorem Tree.length_toList :
    {t : Rose Ptr} → {item : Item} → Rose.Spans s.children t → Tree s t.root item →
    t.toList.length = item.size
  | .node _ _, .mk _ _ _, ⟨hchildren, hts⟩, .mk h => by
      rw [Rose.toList_node, List.length_cons, Item.size, Trees.length_flat hts (hchildren ▸ h),
        Nat.add_comm]

theorem Trees.length_flat : {ts : List (Rose Ptr)} → {items : List Item} → Rose.SpansAll s.children ts →
    Trees s (ts.map Rose.root) items → (Rose.flat ts).length = sizes items
  | [], _, _, .nil => rfl
  | _ :: _, _, ⟨ht, hts⟩, .cons h hs => by
      rw [Rose.flat_cons, List.length_append, sizes, Tree.length_toList ht h, Trees.length_flat hts hs]
end

/-- Memory with one tree has as many nodes as the item has. -/
theorem Only.nodes (h : Only s p item) (hs : s.Realized) :
    ∃ l : List Ptr, (∀ a, s.live a ↔ a ∈ l) ∧ l.length = item.size := by
  obtain ⟨t, rfl, ht⟩ := Rose.exists_spans hs.forest p
  refine ⟨t.toList, fun a => ?_, h.tree.length_toList ht⟩
  rw [h.live, ht.mem_iff]

/-! ## Changes -/

variable [DecidableEq Ptr] {name : CStr} {kind : Kind} {alive : Ptr → Prop} {l : List Ptr}
  {object : Item}

theorem Tree.rename (h : Tree s p item) (hx : ¬Within s.children x p) (name : CStr) :
    Tree (s.rename x name) p item := by
  refine h.congr fun a ha => ⟨rfl, rfl, ?_⟩
  have hax : a ≠ x := fun heq => hx (heq ▸ ha)
  simp [Shape.rename, hax]

theorem Tree.setChildren (h : Tree s p item) (hx : ¬Within s.children x p) :
    Tree (s.setChildren x l) p item := by
  refine h.congr fun a ha => ⟨?_, rfl, rfl⟩
  have hax : a ≠ x := fun heq => hx (heq ▸ ha)
  simp [Shape.setChildren, hax]

theorem Tree.create (h : Tree s p item) (hx : ¬Within s.children x p) :
    Tree (s.create x kind) p item := by
  refine h.congr fun a ha => ?_
  have hax : a ≠ x := fun heq => hx (heq ▸ ha)
  constructor <;> simp [Shape.create, hax]

omit [DecidableEq Ptr] in
theorem Tree.delete (h : Tree s p item) (hx : ∀ a, Within s.children a p → ¬Within s.children a x) :
    Tree (s.delete x) p item :=
  h.congr fun a ha => ⟨if_neg (hx a ha), rfl, rfl⟩

theorem tree_create (x : Ptr) (kind : Kind) : Tree (s.create x kind) x (.mk kind none []) :=
  .of_children (show Trees _ _ [] by simpa [Shape.create] using Trees.nil) (by simp [Shape.create])
    (by simp [Shape.create])
    rfl

theorem Tree.rename_self (hf : Forest alive s.children) (h : Tree s x item) (name : CStr) :
    Tree (s.rename x name) x (item.withString name) := by
  have hchildren : Trees (s.rename x name) (s.children x) item.child := by
    refine h.children.congr fun c hc a ha => ⟨rfl, rfl, ?_⟩
    have hax : a ≠ x := fun heq => hf.not_within hc (heq ▸ ha)
    simp [Shape.rename, hax]
  cases item
  exact .of_children hchildren h.kind_eq (by simp [Item.withString, Shape.rename]) rfl

theorem Tree.setChildren_self (h : Tree s p object) (hl : Trees s l items)
    (hp : ∀ c ∈ l, ¬Within s.children p c) :
    Tree (s.setChildren p l) p (object.withChild items) := by
  refine .of_children (?_ : Trees _ _ items) ?_ ?_ (Item.child_withChild _ _)
  · have hsame : Trees (s.setChildren p l) l items := by
      refine hl.congr fun c hc a ha => ⟨?_, rfl, rfl⟩
      have hap : a ≠ p := fun heq => hp c hc (heq ▸ ha)
      simp [Shape.setChildren, hap]
    simpa [Shape.setChildren] using hsame
  · rw [Item.kind_withChild, h.kind_eq]
    rfl
  · rw [Item.string_withChild, h.string_eq]
    rfl

omit [DecidableEq Ptr] in
theorem Addable.not_within (h : s.Addable p x) {c : Ptr} (hc : c ∈ s.children p) :
    ¬Within s.children x c := by
  intro hx
  obtain rfl := Forest.eq_of_within_root h.root hx
  exact h.root p hc

omit [DecidableEq Ptr] in
theorem Addable.not_within_parent (h : s.Addable p x) : ¬Within s.children x p := fun hx =>
  h.above (Forest.eq_of_within_root h.root hx ▸ .refl)

omit [DecidableEq Ptr] in
/-- Neither a child nor a node that may become one has its parent under it. -/
theorem Addable.parent_not_within (hs : s.Realized) (h : s.Addable p x) {c : Ptr}
    (hc : c ∈ s.children p ∨ c = x) :
    ¬Within s.children p c := by
  rcases hc with hc | rfl
  · exact hs.forest.not_within hc
  · exact h.above

theorem within_setChildren (hl : ∀ c ∈ l, ¬Within s.children p c) {a : Ptr} :
    Within (s.setChildren p l).children a p ↔ a = p ∨ ∃ c ∈ l, Within s.children a c := by
  rw [within_iff]
  have hsame : ∀ c ∈ l, (Within (s.setChildren p l).children a c ↔ Within s.children a c) := by
    intro c hc
    refine within_congr fun b hb => ?_
    have hbp : b ≠ p := fun heq => hl c hc (heq ▸ hb)
    simp [Shape.setChildren, hbp]
  refine or_congr_right ?_
  simp only [Shape.setChildren, Function.update_self] at hsame ⊢
  exact exists_congr fun c => and_congr_right fun hc => hsame c hc

/-! ### A new member -/

theorem map_eq_set {i : ℕ} (hl : l.Nodup) (hi : l[i]? = some y) :
    (l.map fun a => if a = y then x else a) = l.set i x := by
  obtain ⟨hlt, hget⟩ := List.getElem?_eq_some_iff.mp hi
  refine List.ext_getElem (by simp) fun j hj _ => ?_
  rw [List.length_map] at hj
  rw [List.getElem_map, List.getElem_set]
  have hiff : l[j] = y ↔ i = j := by rw [← hget, hl.getElem_inj_iff, eq_comm]
  simp only [hiff]

section Objects

variable (hs : s.Realized) (hp : Tree s p object) (hx : Tree s x item) (hadd : s.Addable p x)
include hs hadd

/-- What replaces a child has no node in common with it, nor have the other children. -/
theorem disjoint_replaced (hy : y ∈ s.children p) {a c : Ptr}
    (hc : c ∈ (s.children p).map fun a => if a = y then x else a) (hac : Within s.children a c) :
    ¬Within s.children a y := by
  intro hay
  obtain ⟨b, hb, rfl⟩ := List.mem_map.mp hc
  by_cases hby : b = y
  · rw [if_pos hby] at hac
    rcases hs.forest.comparable hac hay with hxy | hyx
    · exact hadd.not_within hy hxy
    · -- the parent of `y` is under `x`
      rcases Relation.ReflTransGen.cases_head hyx with heq | ⟨q, hyq, hqx⟩
      · exact hadd.root p (heq ▸ hy)
      · exact hadd.above (hs.forest.unique y p q hy hyq ▸ hqx)
  · rw [if_neg hby] at hac
    exact hby (hs.forest.eq_of_within hb hy hac hay)

theorem parent_not_within_replaced {c : Ptr}
    (hc : c ∈ (s.children p).map fun a => if a = y then x else a) :
    ¬Within s.children p c := by
  obtain ⟨b, hb, rfl⟩ := List.mem_map.mp hc
  refine hadd.parent_not_within hs ?_
  split
  · exact .inr rfl
  · exact .inl hb

omit hadd in
theorem within_setChildren_child (hy : y ∈ s.children p) {a : Ptr} :
    Within (s.setChildren p l).children a y ↔ Within s.children a y := by
  refine within_congr fun b hb => ?_
  have hbp : b ≠ p := fun heq => hs.forest.not_within hy (heq ▸ hb)
  simp [Shape.setChildren, hbp]

theorem disjoint_setChildren (hy : y ∈ s.children p) {a : Ptr}
    (ha : Within (s.setChildren p ((s.children p).map fun a => if a = y then x else a)).children a p) :
    ¬Within (s.setChildren p ((s.children p).map fun a => if a = y then x else a)).children a y := by
  rw [within_setChildren fun c hc => parent_not_within_replaced hs hadd hc] at ha
  rw [within_setChildren_child hs hy]
  rcases ha with rfl | ⟨c, hc, hac⟩
  · exact hs.forest.not_within hy
  · exact disjoint_replaced hs hadd hy hc hac

section Trees

include hp hx

/-- A member is added behind the others. -/
theorem tree_addItemToObject (name : CStr) :
    Tree ((s.rename x name).setChildren p (s.children p ++ [x])) p
    (object.withChild (object.child ++ [item.withString name])) := by
  have hobject := hp.rename hadd.not_within_parent name
  have hl := hobject.children.append (.singleton (hx.rename_self hs.forest name))
  exact hobject.setChildren_self hl fun c hc => hadd.parent_not_within hs (by simpa using hc)

/-- A member is put in the place of another one. -/
theorem tree_replace (name : CStr) {i : ℕ} (hi : (s.children p)[i]? = some y) :
    Tree ((s.rename x name).replace p y x) p
      (object.withChild (object.child.set i (item.withString name))) := by
  have hy := List.mem_of_getElem? hi
  have hobject := hp.rename hadd.not_within_parent name
  have hl := hobject.children.set (hx.rename_self hs.forest name) i
  have hset := map_eq_set (x := x) (hs.forest.nodup p) hi
  refine (hobject.setChildren_self (hset ▸ hl) fun c hc =>
    parent_not_within_replaced hs hadd hc).delete ?_
  exact fun a ha => disjoint_setChildren hs hadd hy ha

end Trees

/-! ### Memory with one tree -/

variable (hlive : ∀ a, s.live a ↔ Within s.children a p ∨ Within s.children a x)
include hp hx hlive

theorem only_addItemToObject (name : CStr) :
    Only ((s.rename x name).setChildren p (s.children p ++ [x])) p
    (object.withChild (object.child ++ [item.withString name])) where
  tree := tree_addItemToObject hs hp hx hadd name
  live a := by
    have hwithin :=
      within_setChildren (s := s.rename x name) (l := s.children p ++ [x]) (p := p) (a := a)
      fun c hc => hadd.parent_not_within hs (by simpa using hc)
    rw [hwithin]
    refine (hlive a).trans ?_
    rw [within_iff]
    simp [Shape.rename, or_and_right, exists_or, or_assoc]

theorem only_replace (name : CStr) {i : ℕ} (hi : (s.children p)[i]? = some y) :
    Only ((s.rename x name).replace p y x) p
      (object.withChild (object.child.set i (item.withString name))) where
  tree := tree_replace hs hp hx hadd name hi
  live a := by
    have hy := List.mem_of_getElem? hi
    -- the nodes under `p` before the old child is deleted are those that stay
    have hkept : Within ((s.rename x name).replace p y x).children a p ↔
        Within (s.setChildren p ((s.children p).map fun a => if a = y then x else a)).children a p :=
      within_congr fun b hb => if_neg (disjoint_setChildren hs hadd hy hb)
    rw [hkept]
    constructor
    · rintro ⟨ha, hay⟩
      have hay : ¬Within s.children a y := (within_setChildren_child hs hy).not.mp hay
      rw [within_setChildren fun c hc => parent_not_within_replaced hs hadd hc]
      rcases (hlive a).mp ha with hap | hax
      · rcases within_iff.mp hap with rfl | ⟨c, hc, hac⟩
        · exact .inl rfl
        · have hcy : c ≠ y := fun heq => hay (heq ▸ hac)
          exact .inr ⟨c, List.mem_map.mpr ⟨c, hc, if_neg hcy⟩, hac⟩
      · exact .inr ⟨x, List.mem_map.mpr ⟨y, hy, if_pos rfl⟩, hax⟩
    · intro ha
      refine ⟨(hlive a).mpr ?_, disjoint_setChildren hs hadd hy ha⟩
      rw [within_setChildren fun c hc => parent_not_within_replaced hs hadd hc] at ha
      rcases ha with rfl | ⟨c, hc, hac⟩
      · exact .inl .refl
      · obtain ⟨b, hb, rfl⟩ := List.mem_map.mp hc
        by_cases hby : b = y
        · exact .inr (by simpa only [if_pos hby] using hac)
        · exact .inl ((show Within s.children a b by simpa only [if_neg hby] using hac).tail hb)

end Objects

/-! ### A new node -/

section New

variable (hs : s.Realized) (hx : ¬s.live x)
include hs hx

theorem children_create (kind : Kind) : (s.create x kind).children = s.children := by
  obtain ⟨nodes, h⟩ := hs
  obtain ⟨hnil, -⟩ := h.dead hx
  rw [Shape.create, ← hnil, Function.update_eq_self]

omit [DecidableEq Ptr] in
theorem not_within_of_dead (hp : s.live p) : ¬Within s.children x p := fun h =>
  hx (hs.forest.alive_of_within hp h)

theorem addable_create (hp : s.live p) (kind : Kind) : (s.create x kind).Addable p x := by
  obtain ⟨hnil, hroot⟩ : s.children x = [] ∧ ∀ q, x ∉ s.children q := by
    obtain ⟨nodes, h⟩ := hs
    exact h.dead hx
  refine ⟨.inl rfl, fun q => by rw [children_create hs hx]; exact hroot q, ?_⟩
  rw [children_create hs hx, within_iff, hnil]
  rintro (rfl | ⟨c, hc, -⟩)
  · exact hx hp
  · cases hc

theorem member_create (kind : Kind) (name : CStr) (caseSensitive : Bool) :
    (s.create x kind).member p name caseSensitive = s.member p name caseSensitive := by
  have hmem : ∀ a ∈ s.children p, a ≠ x := fun a ha heq => hx (heq ▸ (hs.forest.alive a p ha).1)
  have hname : ∀ a ∈ s.children p, (s.create x kind).name a = s.name a := fun a ha => by
    simp [Shape.create, hmem a ha]
  have hstop : ∀ a ∈ s.children p, Nodes.stopsAt (s.create x kind).name name caseSensitive a =
      Nodes.stopsAt s.name name caseSensitive a := fun a ha => by simp only [Nodes.stopsAt, hname a ha]
  simp only [Shape.member, children_create hs hx, List.find?_congr hstop]
  cases hfound : (s.children p).find? (Nodes.stopsAt s.name name caseSensitive) with
  | none => rfl
  | some a => simp [Option.filter, hname a (List.mem_of_find?_eq_some hfound)]

theorem live_create (h : Only s p object) (kind : Kind) (a : Ptr) : (s.create x kind).live a ↔
    Within (s.create x kind).children a p ∨ Within (s.create x kind).children a x := by
  obtain ⟨hnil, -⟩ : s.children x = [] ∧ ∀ q, x ∉ s.children q := by
    obtain ⟨nodes, hn⟩ := hs
    exact hn.dead hx
  rw [children_create hs hx, within_iff (p := x), hnil, ← h.live]
  simp [Shape.create, or_comm]

end New

end Shape

end CppJson
