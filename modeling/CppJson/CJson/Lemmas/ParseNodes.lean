import CppJson.CJson.ParseNodes
import CppJson.CJson.Lemmas.Layout
import CppJson.CJson.Lemmas.Parse

/-!
# The tree that `cJSON_Parse` builds

While an array is read, its elements are a chain of finished trees (`Chain`); each parse function
fills in one node (`Filled`) and takes the rest of what it needs from free memory. What it builds is
what the parse function on values gives, and where it fails, or there is no memory, nothing is left
of it.
-/

namespace CppJson

namespace Nodes

open Rose

variable {Ptr : Type} {nodes nodes₁ nodes₂ : Nodes Ptr} {p q : Ptr} {ts us : List (Rose Ptr)}
  {A : Allocator Ptr}

/-! ## Filled nodes -/

/-- The node `p` was given the trees `ts`, whose nodes were free before. -/
structure Filled (nodes nodes' : Nodes Ptr) (p : Ptr) (ts : List (Rose Ptr)) : Prop where
  laid : nodes'.Laid (.node p ts)
  nodup : (flat ts).Nodup
  fresh : ∀ a ∈ flat ts, nodes.allocated a = false
  allocated : ∀ a, nodes'.allocated a = true ↔ nodes.allocated a = true ∨ a ∈ flat ts
  next : nodes'.next p = nodes.next p
  prev : nodes'.prev p = nodes.prev p
  same : ∀ a, nodes.allocated a = true → a ≠ p → nodes.SameAt nodes' a

/-- Changes of a node before it is filled in. -/
theorem Filled.of_same (h : Filled nodes₁ nodes₂ p ts) (halloc : nodes₁.allocated = nodes.allocated)
    (hnext : nodes₁.next = nodes.next) (hprev : nodes₁.prev = nodes.prev)
    (hsame : ∀ a, a ≠ p → nodes.SameAt nodes₁ a) : Filled nodes nodes₂ p ts where
  laid := h.laid
  nodup := h.nodup
  fresh := by simpa only [halloc] using h.fresh
  allocated := by simpa only [halloc] using h.allocated
  next := by rw [h.next, hnext]
  prev := by rw [h.prev, hprev]
  same a ha hap := (hsame a hap).trans (h.same a (halloc ▸ ha) hap)

theorem laid_leaf (hp : nodes.allocated p = true) (hchild : nodes.child p = none) :
    nodes.Laid (.node p []) :=
  ⟨hp, hchild, Siblings.nil, trivial⟩

theorem Filled.refl (hp : nodes.allocated p = true) (hchild : nodes.child p = none) :
    Filled nodes nodes p [] where
  laid := laid_leaf hp hchild
  nodup := List.nodup_nil
  fresh := by simp
  allocated := by simp
  next := rfl
  prev := rfl
  same a _ _ := .refl nodes a

/-- `malloc` returns NULL for a string, or for a node at a point with fewer than `k` more nodes. -/
def Starved (A : Allocator Ptr) (nodes : Nodes Ptr) (k : ℕ) : Prop :=
  (∃ nodes₁ size, A.mallocString nodes₁ size = false) ∨
    ∃ (nodes₁ : Nodes Ptr) (l : List Ptr), A.malloc nodes₁ = none ∧ l.length < k ∧
      ∀ a, nodes₁.allocated a = true → nodes.allocated a = true ∨ a ∈ l

/-- Nodes made before memory ran out. -/
theorem Starved.shift {k m : ℕ} {l : List Ptr} (h : Starved A nodes₁ k)
    (hl : ∀ a, nodes₁.allocated a = true → nodes.allocated a = true ∨ a ∈ l) (hm : l.length + k ≤ m) :
    Starved A nodes m := by
  rcases h with hstring | ⟨nodes₂, l₂, hnone, hlen, hl₂⟩
  · exact .inl hstring
  · refine .inr ⟨nodes₂, l ++ l₂, hnone, by rw [List.length_append]; omega, fun a ha => ?_⟩
    rw [List.mem_append, ← or_assoc]
    exact (hl₂ a ha).imp_left (hl a)

/-- A parse function on values returns, with true or with false. -/
def Returns {α : Type} (r : Except Stop α) : Prop := ∀ e, r = .error e → e = .rejected

/-- A program that reads one value into the node `p` does what the function on values does. -/
def Parses (A : Allocator Ptr) (nodes : Nodes Ptr) (p : Ptr) (x : ℕ → NodeProg Ptr (Option ParseBuffer))
    (r : Except Stop (Item × ParseBuffer)) : Prop :=
  ∃ o nodes' ts, Prog.Settles x nodes o nodes' ∧ Filled nodes nodes' p ts ∧
    match o with
    | some b => r = .ok (nodes'.item (.node p ts), b)
    | none => ts = [] ∧ ∀ item b, r = .ok (item, b) → Starved A nodes (sizes item.child)

/-! ## Chains -/

/-- The trees `ts`, whose nodes were free before, are a list; its first node is not linked to the
last one. -/
structure Chain (nodes nodes' : Nodes Ptr) (ts : List (Rose Ptr)) : Prop where
  laid : nodes'.LaidAll ts
  links : Segment nodes'.next nodes'.prev none (ts.map root) none
  nodup : (flat ts).Nodup
  fresh : ∀ a ∈ flat ts, nodes.allocated a = false
  allocated : ∀ a, nodes'.allocated a = true ↔ nodes.allocated a = true ∨ a ∈ flat ts
  same : ∀ a, nodes.allocated a = true → nodes.SameAt nodes' a

theorem Chain.nil (nodes : Nodes Ptr) : Chain nodes nodes [] :=
  ⟨trivial, trivial, List.nodup_nil, by simp, by simp, fun a _ => .refl nodes a⟩

theorem laidAll_append : nodes.LaidAll (ts ++ us) ↔ nodes.LaidAll ts ∧ nodes.LaidAll us := by
  simp only [laidAll_iff, List.mem_append]
  exact ⟨fun h => ⟨fun t ht => h t (.inl ht), fun t ht => h t (.inr ht)⟩,
    fun h t ht => ht.elim (h.1 t) (h.2 t)⟩

/-- The last node of a chain is filled in. -/
theorem Chain.fill (h : Chain nodes nodes₁ (ts ++ [.node q []])) (hq : Filled nodes₁ nodes₂ q us) :
    Chain nodes nodes₂ (ts ++ [.node q us]) ∧ ∀ a ∈ flat ts, nodes₁.SameAt nodes₂ a := by
  have hflat : ∀ vs : List (Rose Ptr), flat (ts ++ [.node q vs]) =
      flat ts ++ q :: flat vs := fun vs => by
    rw [flat_append, flat_cons, toList_node, flat_nil, List.append_nil]
  obtain ⟨hlaid, hlinks, hnodup, hfresh, halloc, hsame⟩ := h
  simp only [hflat, flat_nil] at hnodup hfresh halloc
  have hmem : ∀ a ∈ flat ts, nodes₁.allocated a = true ∧ a ≠ q := by
    intro a ha
    refine ⟨(halloc a).mpr (.inr (List.mem_append_left _ ha)), fun heq => ?_⟩
    exact List.disjoint_of_nodup_append hnodup ha (heq ▸ List.mem_singleton_self q)
  have hts : ∀ a ∈ flat ts, nodes₁.SameAt nodes₂ a := fun a ha => hq.same a (hmem a ha).1 (hmem a ha).2
  have hroots : (ts ++ [Rose.node q us]).map root = (ts ++ [Rose.node q []]).map root := by simp
  have hlinked : ∀ a ∈ (ts ++ [Rose.node q []]).map root, nodes₂.next a = nodes₁.next a ∧
      nodes₂.prev a = nodes₁.prev a := by
    intro a ha
    rw [List.map_append, List.mem_append] at ha
    rcases ha with ha | ha
    · have := hts a ((roots_sublist ts).subset ha)
      exact ⟨this.next, this.prev⟩
    · obtain rfl : a = q := by simpa using ha
      exact ⟨hq.next, hq.prev⟩
  have hnew : ∀ a ∈ flat us, nodes₁.allocated a = true → False :=
    fun a ha hal => by simp [hq.fresh a ha] at hal
  refine ⟨⟨?_, ?_, ?_, ?_, ?_, ?_⟩, hts⟩
  · rw [laidAll_append] at hlaid ⊢
    exact ⟨hlaid.1.congr hts, hq.laid, trivial⟩
  · rw [hroots]
    exact hlinks.congr (fun a ha => (hlinked a ha).1) fun a ha => (hlinked a ha).2
  · rw [hflat, List.nodup_append, List.nodup_cons]
    refine ⟨(List.nodup_append.mp hnodup).1, ⟨fun hmem_q => hnew q hmem_q ?_, hq.nodup⟩, ?_⟩
    · exact (halloc q).mpr (.inr (by simp))
    · rintro a ha b hb rfl
      rcases List.mem_cons.mp hb with rfl | hb
      · exact (hmem _ ha).2 rfl
      · exact hnew a hb (hmem a ha).1
  · rw [hflat]
    intro a ha
    rcases List.mem_append.mp ha with ha | ha
    · exact hfresh a (List.mem_append_left _ ha)
    · rcases List.mem_cons.mp ha with rfl | ha
      · exact hfresh _ (by simp)
      · have := mt (fun hal => (halloc a).mpr (.inl hal)) (hnew a ha)
        simpa using this
  · intro a
    rw [hq.allocated, halloc, hflat]
    simp only [List.mem_append, List.mem_cons, List.not_mem_nil, or_false]
    tauto
  · intro a ha
    have haq : a ≠ q := fun heq => by simp [heq, hfresh q (by simp)] at ha
    exact (hsame a ha).trans (hq.same a ((halloc a).mpr (.inl ha)) haq)

/-- A node without children is linked behind a chain. -/
theorem Chain.link (h : Chain nodes nodes₁ ts) (hq : nodes₁.allocated q = false)
    (halloc : ∀ a, nodes₂.allocated a = true ↔ nodes₁.allocated a = true ∨ a = q)
    (hchild : nodes₂.child q = none) (hnode : ∀ a, a ≠ q → nodes₁.SameNode nodes₂ a)
    (hprev : ∀ a, a ≠ q → nodes₂.prev a = nodes₁.prev a)
    (hnext : ∀ a, a ≠ q → some a ≠ (ts.map root).getLast? → nodes₂.next a = nodes₁.next a)
    (hnext_q : nodes₂.next q = none) (hprev_q : nodes₂.prev q = (ts.map root).getLast?)
    (hlast : ∀ z ∈ (ts.map root).getLast?, nodes₂.next z = some q) :
    Chain nodes nodes₂ (ts ++ [.node q []]) := by
  have hold : ∀ a, nodes.allocated a = true ∨ a ∈ flat ts → a ≠ q := by
    rintro a ha rfl
    simp [(h.allocated a).mpr ha] at hq
  have hflat : flat (ts ++ [Rose.node q []]) = flat ts ++ [q] := by rw [flat_append]; rfl
  have hroot : ∀ z ∈ (ts.map root).getLast?, z ∈ flat ts := fun z hz =>
    (roots_sublist ts).subset (List.mem_of_getLast? hz)
  refine ⟨?_, ?_, ?_, ?_, ?_, ?_⟩
  · rw [laidAll_append]
    refine ⟨laidAll_iff.mpr fun t ht => ?_,
      ⟨(halloc q).mpr (.inr rfl), hchild, Siblings.nil, trivial⟩, trivial⟩
    have hmem : ∀ a ∈ t.toList, a ≠ q := fun a ha => hold a (.inr (mem_flat ht ha))
    refine (laidAll_iff.mp h.laid t ht).congr (hnode _ (hmem _ (root_mem t))) fun a ha => ?_
    have haq : a ≠ q := hmem a (by rw [toList_eq]; exact List.mem_cons_of_mem _ ha)
    refine ⟨hnode a haq, hnext a haq fun heq => ?_, hprev a haq⟩
    exact notMem_roots h.nodup ht ha (List.mem_of_getLast? heq.symm)
  · rw [List.map_append, segment_append]
    have hmem : ∀ a ∈ ts.map root, a ≠ q := fun a ha => hold a (.inr ((roots_sublist ts).subset ha))
    refine ⟨h.links.move ((roots_sublist ts).nodup h.nodup) ?_ ?_ ?_ ?_, ?_, hnext_q, trivial⟩
    · exact fun a ha hne => hnext a (hmem a ha) hne
    · exact fun a ha _ => hprev a (hmem a ha)
    · exact hlast
    · intro a ha
      rw [hprev a (hmem a (List.mem_of_mem_head? ha))]
      exact h.links.first_eq a ha
    · rw [root_node, hprev_q, Option.or_none]
  · rw [hflat, List.nodup_append]
    refine ⟨h.nodup, List.nodup_singleton q, fun a ha b hb => ?_⟩
    obtain rfl := List.mem_singleton.mp hb
    exact hold a (.inr ha)
  · rw [hflat]
    intro a ha
    rcases List.mem_append.mp ha with ha | ha
    · exact h.fresh a ha
    · obtain rfl := List.mem_singleton.mp ha
      have := mt (fun hal => (h.allocated a).mpr (.inl hal)) (by simp [hq])
      simpa using this
  · intro a
    rw [halloc, h.allocated, hflat, List.mem_append, List.mem_singleton, or_assoc]
  · intro a ha
    have haq := hold a (.inl ha)
    refine (h.same a ha).trans ⟨hnode a haq, hnext a haq fun heq => ?_, hprev a haq⟩
    have := h.fresh a (hroot a heq.symm)
    simp [ha] at this

mutual
theorem size_item (nodes : Nodes Ptr) : (t : Rose Ptr) → (nodes.item t).size = t.toList.length
  | .node p ts => by
      rw [item, Item.size, sizes_items nodes ts, toList_node, List.length_cons, Nat.add_comm]

theorem sizes_items (nodes : Nodes Ptr) :
    (ts : List (Rose Ptr)) → sizes (nodes.items ts) = (flat ts).length
  | [] => rfl
  | t :: ts => by
      rw [items, sizes, size_item nodes t, sizes_items nodes ts, flat_cons, List.length_append]
end

variable [DecidableEq Ptr]

/-- Memory with a new node. -/
def withNew (nodes : Nodes Ptr) (q : Ptr) : Nodes Ptr where
  allocated := Function.update nodes.allocated q true
  next := Function.update nodes.next q none
  prev := Function.update nodes.prev q none
  child := Function.update nodes.child q none
  kind := Function.update nodes.kind q .invalid
  string := Function.update nodes.string q none

theorem run_cjsonNewItem (nodes : Nodes Ptr) (q : Ptr) :
    (cjsonNewItem (some q)).run nodes = .ok (some q) (nodes.withNew q) := rfl

theorem sameAt_withNew {a : Ptr} (ha : a ≠ q) : nodes.SameAt (nodes.withNew q) a := by
  constructor
  · constructor <;> simp [withNew, ha]
  · simp [withNew, ha]
  · simp [withNew, ha]

theorem allocated_withNew {a : Ptr} :
    (nodes.withNew q).allocated a = true ↔ nodes.allocated a = true ∨ a = q := by
  by_cases ha : a = q <;> simp [withNew, ha]

/-- A new node is a chain of its own. -/
theorem Chain.single (hq : nodes.allocated q = false) : Chain nodes (nodes.withNew q) [.node q []] :=
  (Chain.nil nodes).link hq (fun a => allocated_withNew) (by simp [withNew])
    (fun a ha => (sameAt_withNew ha).toSameNode)
    (fun a ha => (sameAt_withNew ha).prev) (fun a ha _ => (sameAt_withNew ha).next) (by simp [withNew])
    (by simp [withNew]) (by simp)

/-- A new node is attached to a chain. -/
theorem Chain.attach (h : Chain nodes nodes₁ ts) (hq : nodes₁.allocated q = false) :
    ∃ nodes₂, (attach (ts.map root).head? (ts.map root).getLast? (some q)).run (nodes₁.withNew q) =
        .ok ((ts ++ [Rose.node q []]).map root).head? nodes₂ ∧
      Chain nodes nodes₂ (ts ++ [.node q []]) ∧ nodes₂.child q = none ∧ nodes₂.string q = none ∧
      (∀ a, nodes₂.allocated a = true ↔ nodes₁.allocated a = true ∨ a = q) ∧
        ∀ a, a ≠ q → nodes₁.SameNode nodes₂ a := by
  rcases ts.eq_nil_or_concat' with rfl | ⟨ts, t, rfl⟩
  · refine ⟨nodes₁.withNew q, rfl, ?_, by simp [withNew], by simp [withNew], fun a => allocated_withNew,
      fun a ha => (sameAt_withNew ha).toSameNode⟩
    exact h.link hq (fun a => allocated_withNew) (by simp [withNew])
      (fun a ha => (sameAt_withNew ha).toSameNode) (fun a ha => (sameAt_withNew ha).prev)
      (fun a ha _ => (sameAt_withNew ha).next) (by simp [withNew]) (by simp [withNew]) (by simp)
  · have hlast : ((ts ++ [t]).map root).getLast? = some t.root := by simp
    have hz : nodes₁.allocated t.root = true :=
      (h.allocated _).mpr (.inr (mem_flat (by simp) (root_mem t)))
    have hzq : t.root ≠ q := fun heq => by simp [← heq, hz] at hq
    obtain ⟨c, hc⟩ : ∃ c, ((ts ++ [t]).map root).head? = some c :=
      ⟨_, List.head?_eq_some_head (by simp)⟩
    have hhead : ((ts ++ [t] ++ [Rose.node q []]).map root).head? = some c := by
      rw [List.map_append, List.head?_append, hc, Option.some_or]
    have hz' : (nodes₁.withNew q).allocated t.root = true := allocated_withNew.mpr (.inl hz)
    have hq' : (nodes₁.withNew q).allocated q = true := allocated_withNew.mpr (.inr rfl)
    refine ⟨{ nodes₁.withNew q with
      next := Function.update (nodes₁.withNew q).next t.root (some q)
      prev := Function.update (nodes₁.withNew q).prev q (some t.root) }, ?_, ?_, by simp [withNew],
        by simp [withNew],
      fun a => allocated_withNew, fun a ha => (sameAt_withNew ha).toSameNode.trans ⟨rfl, rfl, rfl, rfl⟩⟩
    · rw [hhead]
      simp only [Nodes.attach, hc, hlast, reduceCtorEq, ↓reduceIte, Prog.run_bind,
        run_setNext _ hz', run_setPrev, hq', Prog.run_pure]
    · refine h.link hq (fun a => allocated_withNew) (by simp [withNew]) ?_ ?_ ?_ ?_ ?_ ?_
      · exact fun a ha => (sameAt_withNew ha).toSameNode.trans ⟨rfl, rfl, rfl, rfl⟩
      · exact fun a ha => by simp [withNew, ha]
      · intro a ha hne
        have haz : a ≠ t.root := fun heq => hne (heq ▸ hlast.symm)
        simp [withNew, ha, haz]
      · simp [withNew, hzq.symm]
      · simp
      · simp

/-! ## The loops -/

/-- The loops of `parse_array` and `parse_object` on values. -/
def chainLoop (child : ParseBuffer → Except Stop (Item × ParseBuffer)) :
    ℕ → ParseBuffer → Except Stop (List Item × ParseBuffer)
  | 0, _ => .error .outOfFuel
  | n + 1, b => do
      let (item, b) ← child b
      let b := bufferSkipWhitespace b
      if b.peek = some (byte ',') then
        let (items, b) ← chainLoop child n b
        return (item :: items, b)
      else return ([item], b)

/-- One element on values. -/
def elementOf (pv : CppJson.ParseValue) (b : ParseBuffer) : Except Stop (Item × ParseBuffer) :=
  pv none (bufferSkipWhitespace (b.advance 1))

/-- One member on values. -/
def memberOf (pv : CppJson.ParseValue) (b : ParseBuffer) : Except Stop (Item × ParseBuffer) := do
  let (string, b) ← CppJson.parseString (bufferSkipWhitespace (b.advance 1))
  let b := bufferSkipWhitespace b
  if b.peek ≠ some (byte ':') then throw .rejected
  pv (some string) (bufferSkipWhitespace (b.advance 1))

theorem parseElements_eq_chainLoop (pv : CppJson.ParseValue) (n : ℕ) (b : ParseBuffer) :
    parseElements pv n b = chainLoop (elementOf pv) n b := by
  induction n generalizing b with
  | zero => rfl
  | succ n ih => simp only [parseElements, chainLoop, elementOf, ih]

theorem parseMembers_eq_chainLoop (pv : CppJson.ParseValue) (n : ℕ) (b : ParseBuffer) :
    parseMembers pv n b = chainLoop (memberOf pv) n b := by
  induction n generalizing b with
  | zero => rfl
  | succ n ih =>
      simp only [parseMembers, chainLoop, memberOf, ih, bind_assoc]
      refine bind_congr fun r => ?_
      split <;> rfl

theorem chainLoop_succ {child : ParseBuffer → Except Stop (Item × ParseBuffer)} {n : ℕ}
    {b : ParseBuffer} :
    chainLoop child (n + 1) b =
      match child b with
      | .error e => .error e
      | .ok (item, b₁) =>
          if (bufferSkipWhitespace b₁).peek = some (byte ',') then
            match chainLoop child n (bufferSkipWhitespace b₁) with
            | .error e => .error e
            | .ok (items, b₂) => .ok (item :: items, b₂)
          else .ok ([item], bufferSkipWhitespace b₁) := by
  rw [chainLoop]
  rcases child b with e | ⟨item, b₁⟩
  · rfl
  · simp only [bind, Except.bind]
    split
    · rcases chainLoop child n (bufferSkipWhitespace b₁) with e | ⟨items, b₂⟩ <;> rfl
    · rfl

theorem size_eq_child (item : Item) : item.size = 1 + sizes item.child := by
  cases item
  rfl

/-- The loop gives one item at least, the one that was read first. -/
theorem chainLoop_ok {child : ParseBuffer → Except Stop (Item × ParseBuffer)} {n : ℕ}
    {b b' : ParseBuffer} {items : List Item} (h : chainLoop child (n + 1) b = .ok (items, b')) :
    ∃ item b₁, child b = .ok (item, b₁) ∧ item.size ≤ sizes items := by
  rw [chainLoop_succ] at h
  rcases hchild : child b with e | ⟨item, b₁⟩
  · rw [hchild] at h
    cases h
  · rw [hchild] at h
    refine ⟨item, b₁, rfl, ?_⟩
    dsimp only at h
    split at h
    · rcases hrest : chainLoop child n (bufferSkipWhitespace b₁) with e | ⟨rest, b₂⟩
      · rw [hrest] at h
        cases h
      · rw [hrest] at h
        cases h
        exact Nat.le_add_right _ _
    · cases h
      exact Nat.le_add_right _ _

/-- Reading one child does what the function on values does. -/
def SimChild (A : Allocator Ptr) (x : ℕ → ParseValue Ptr)
    (child : ParseBuffer → Except Stop (Item × ParseBuffer)) :
    Prop :=
  ∀ (nodes : Nodes Ptr) (q : Ptr) (b : ParseBuffer), nodes.allocated q = true → nodes.child q = none →
    nodes.string q = none → Returns (child b) → Parses A nodes q (fun n => x n (some q) b) (child b)

theorem run_parseChildren_none {x : ParseValue Ptr} {k : ℕ} {b : ParseBuffer}
    {head currentItem : Option Ptr} (hm : A.malloc nodes = none) :
    (parseChildren A x (k + 1) head currentItem b).run nodes = .ok (head, none) nodes := by
  simp [parseChildren, Allocator.allocate, cjsonNewItem, Prog.run_bind, hm]

/-- A round of the loop with a new node. -/
theorem run_parseChildren_some {x : ParseValue Ptr} {k : ℕ} {b : ParseBuffer}
    {head head' currentItem : Option Ptr} (hm : A.malloc nodes = some q)
    (hattach : (attach head currentItem (some q)).run (nodes.withNew q) = .ok head' nodes₁) :
    (parseChildren A x (k + 1) head currentItem b).run nodes =
      (do
        let o ← x (some q) b
        match o with
        | none => return (head', none)
        | some b =>
            if (bufferSkipWhitespace b).peek = some (byte ',') then
              parseChildren A x k head' (some q) (bufferSkipWhitespace b)
            else return (head', some (some q, bufferSkipWhitespace b))).run nodes₁ := by
  have hnode : (A.allocate : NodeProg Ptr (Option Ptr)).run nodes = .ok (some q) nodes := by
    simp only [Allocator.allocate, Prog.run_bind, Prog.run_get, Prog.run_pure, hm]
  rw [parseChildren, Prog.run_bind_ok hnode, Prog.run_bind_ok (run_cjsonNewItem nodes q)]
  simp only [reduceCtorEq, ↓reduceIte]
  exact Prog.run_bind_ok hattach

theorem parseChildren_spec {x : ℕ → ParseValue Ptr}
    {child : ParseBuffer → Except Stop (Item × ParseBuffer)} (hsim : SimChild A x child) {k : ℕ}
    {b : ParseBuffer} (h : Chain nodes nodes₁ ts) (hreturns : Returns (chainLoop child k b)) :
    ∃ nodes' us o, Prog.Settles
      (fun n => parseChildren A (x n) k (ts.map root).head? (ts.map root).getLast? b) nodes₁
        (((ts ++ us).map root).head?, o) nodes' ∧
      Chain nodes nodes' (ts ++ us) ∧ (∀ a ∈ flat ts, nodes₁.SameNode nodes' a) ∧
      match o with
      | some (currentItem, b') =>
          currentItem = ((ts ++ us).map root).getLast? ∧ chainLoop child k b = .ok (nodes'.items us, b')
      | none => ∀ items b', chainLoop child k b = .ok (items, b') → Starved A nodes₁ (sizes items) := by
  induction k generalizing nodes₁ ts b with
  | zero => cases hreturns _ rfl
  | succ k ih =>
      cases hm : A.malloc nodes₁ with
      | none =>
          refine ⟨nodes₁, [], none, ?_, by rwa [List.append_nil], fun a _ => .refl _ a,
            fun items b' hok => ?_⟩
          · rw [List.append_nil]
            exact ⟨0, fun n _ => run_parseChildren_none hm⟩
          · obtain ⟨item, b₁, -, hle⟩ := chainLoop_ok hok
            have := size_eq_child item
            exact .inr ⟨nodes₁, [], hm, by rw [List.length_nil]; omega, fun a ha => .inl ha⟩
      | some q =>
          have hq := A.fresh nodes₁ q hm
          obtain ⟨nodes₂, hattach, hchain₂, hchild₂, hstring₂, halloc₂, hsame₂⟩ := h.attach hq
          have hchild_returns : Returns (child b) :=
            fun e heq => hreturns e (by rw [chainLoop_succ, heq])
          obtain ⟨o₁, nodes₃, us₁, hrun₃, hfilled, hres⟩ :=
            hsim nodes₂ q b ((halloc₂ q).mpr (.inr rfl)) hchild₂ hstring₂ hchild_returns
          obtain ⟨hchain₃, hsame₃⟩ := hchain₂.fill hfilled
          have hne : ∀ a ∈ flat ts, a ≠ q := by
            rintro a ha rfl
            simp [(h.allocated a).mpr (.inr ha)] at hq
          have hts₃ : ∀ a ∈ flat ts, nodes₁.SameNode nodes₃ a :=
            fun a ha => (hsame₂ a (hne a ha)).trans (hsame₃ a ha).toSameNode
          have halloc₃ : ∀ a, nodes₃.allocated a = true →
              nodes₁.allocated a = true ∨ a ∈ q :: flat us₁ := by
            intro a ha
            rw [hfilled.allocated, halloc₂] at ha
            rw [List.mem_cons, ← or_assoc]
            exact ha
          cases o₁ with
          | none =>
              obtain ⟨rfl, hstarved⟩ := hres
              refine ⟨nodes₃, [.node q []], none, ?_, hchain₃, hts₃, fun items b' hok => ?_⟩
              · exact (hrun₃.bind (.of_run rfl)).of_eq fun n => run_parseChildren_some hm hattach
              · obtain ⟨item, b₁, hitem, hle⟩ := chainLoop_ok hok
                rw [size_eq_child] at hle
                refine (hstarved item b₁ hitem).shift (l := [q]) (fun a ha => ?_) hle
                rw [List.mem_singleton]
                exact (halloc₂ a).mp ha
          | some b₁ =>
              by_cases hpeek : (bufferSkipWhitespace b₁).peek = some (byte ',')
              · have hloop : chainLoop child (k + 1) b =
                    match chainLoop child k (bufferSkipWhitespace b₁) with
                    | .error e => .error e
                    | .ok (items, b₂) => .ok (nodes₃.item (.node q us₁) :: items, b₂) := by
                  rw [chainLoop_succ, hres]
                  exact if_pos hpeek
                have hrest_returns : Returns (chainLoop child k (bufferSkipWhitespace b₁)) :=
                  fun e heq => hreturns e (by rw [hloop, heq])
                obtain ⟨nodes', us, o, hrun, hchain, hsame, hrest⟩ := ih hchain₃ hrest_returns
                have hroots : (ts ++ [Rose.node q us₁]).map root =
                    (ts ++ [Rose.node q []]).map root := by simp
                have hlast : ((ts ++ [Rose.node q us₁]).map root).getLast? = some q := by simp
                have hitem : nodes'.item (.node q us₁) = nodes₃.item (.node q us₁) := by
                  refine item_congr fun a ha => hsame a ?_
                  rw [flat_append]
                  exact List.mem_append_right _ (mem_flat (List.mem_singleton_self _) ha)
                rw [List.append_assoc, List.singleton_append] at hrun hchain
                rw [hlast, hroots] at hrun
                refine ⟨nodes', .node q us₁ :: us, o, ?_, hchain,
                  fun a ha => (hts₃ a ha).trans (hsame a ?_), ?_⟩
                · refine (hrun₃.bind (hrun.of_eq fun n => ?_)).of_eq fun n =>
                    run_parseChildren_some hm hattach
                  dsimp only
                  rw [if_pos hpeek]
                · rw [flat_append]
                  exact List.mem_append_left _ ha
                · rw [hloop]
                  cases o with
                  | some last =>
                      obtain ⟨hcurrent, hok⟩ := hrest
                      refine ⟨by rw [hcurrent, List.append_assoc, List.singleton_append], ?_⟩
                      rw [hok, items, hitem]
                  | none =>
                      intro items b' hok
                      rcases hrest_eq : chainLoop child k (bufferSkipWhitespace b₁) with e | ⟨rest, b₂⟩
                      · rw [hrest_eq] at hok
                        cases hok
                      · rw [hrest_eq] at hok
                        cases hok
                        refine (hrest rest _ hrest_eq).shift halloc₃ ?_
                        rw [sizes, size_item, toList_node]
              · refine ⟨nodes₃, [.node q us₁], some (some q, bufferSkipWhitespace b₁), ?_,
                  hchain₃, hts₃, ?_, ?_⟩
                · refine (hrun₃.bind ⟨0, fun n _ => ?_⟩).of_eq fun n =>
                    run_parseChildren_some hm hattach
                  dsimp only
                  rw [if_neg hpeek, Prog.run_pure]
                  simp
                · simp
                · rw [chainLoop_succ, hres]
                  exact if_neg hpeek

/-! ## The ends of a list -/

/-- Deleting a chain leaves what was there before. -/
theorem Chain.deleted (h : Chain nodes nodes₁ ts) :
    Prog.Settles (fun n => cjsonDelete n (ts.map root).head?) nodes₁ () (nodes₁.release (flat ts)) ∧
      (∀ a, (nodes₁.release (flat ts)).allocated a = true ↔ nodes.allocated a = true) ∧
      ∀ a, nodes.allocated a = true → nodes.SameAt (nodes₁.release (flat ts)) a := by
  have hold : ∀ a, nodes.allocated a = true → a ∉ flat ts :=
    fun a ha hmem => by simp [h.fresh a hmem] at ha
  refine ⟨⟨(flat ts).length + 1, fun n hn => cjsonDelete_laid h.laid h.links h.nodup (by omega)⟩,
    fun a => ?_, fun a ha => (h.same a ha).trans (sameAt_release (hold a ha))⟩
  rw [allocated_release, h.allocated]
  constructor
  · rintro ⟨ha | ha, hmem⟩
    · exact ha
    · exact absurd ha hmem
  · exact fun ha => ⟨.inl ha, hold a ha⟩

section Ends

variable (hp : nodes.allocated p = true)
include hp

/-- A list that is given up is deleted. -/
theorem Chain.drop (h : Chain nodes nodes₁ ts) (hchild : nodes.child p = none) :
    Prog.Settles (fun n => dropList n (ts.map root).head?) nodes₁ none (nodes₁.release (flat ts)) ∧
      Filled nodes (nodes₁.release (flat ts)) p [] := by
  obtain ⟨hdelete, halloc, hsame⟩ := h.deleted
  constructor
  · cases ts with
    | nil =>
        rw [flat_nil, release_nil]
        exact .of_run rfl
    | cons t ts => exact hdelete.bind (.of_run rfl)
  · have hsame_p := hsame p hp
    refine ⟨laid_leaf (hsame_p.allocated.trans hp) (hsame_p.child.trans hchild), List.nodup_nil,
      by simp, fun a => ?_, hsame_p.next, hsame_p.prev, fun a ha _ => hsame a ha⟩
    rw [halloc, flat_nil]
    simp

omit hp in
theorem closeList_eq (kind : Kind) (item head currentItem : Option Ptr) (b : ParseBuffer) :
    closeList kind item head currentItem b = (do
      (if head ≠ none then setPrev head currentItem else pure () : NodeProg Ptr Unit)
      setKind item kind
      setChild item head
      return some (b.leave.advance 1)) := by
  unfold closeList
  split <;> rfl

omit hp in
theorem run_setKind (hp : nodes.allocated p = true) (kind : Kind) :
    (setKind (some p) kind).run nodes =
      .ok () { nodes with kind := Function.update nodes.kind p kind } := by
  simp [setKind, Prog.run_bind, hp]

/-- A finished list becomes the children of a node. -/
theorem Chain.close (h : Chain nodes nodes₁ ts) (kind : Kind) (b : ParseBuffer) :
    ∃ nodes₂, (closeList kind (some p) (ts.map root).head? (ts.map root).getLast? b).run nodes₁ =
        .ok (some (b.leave.advance 1)) nodes₂ ∧
      Filled nodes nodes₂ p ts ∧
        nodes₂.item (.node p ts) = .mk kind (nodes.string p) (nodes₁.items ts) := by
  have hold : ∀ a, nodes.allocated a = true → a ∉ flat ts :=
    fun a ha hmem => by simp [h.fresh a hmem] at ha
  have hp₁ : nodes₁.allocated p = true := (h.allocated p).mpr (.inl hp)
  have hpts := hold p hp
  have hroots := roots_sublist ts
  -- the first node is linked to the last one
  obtain ⟨prev, hrun, hsib, hprev⟩ : ∃ prev : Ptr → Option Ptr,
      (if (ts.map root).head? ≠ none then setPrev (ts.map root).head? (ts.map root).getLast?
      else pure () :
        NodeProg Ptr Unit).run nodes₁ = .ok () { nodes₁ with prev := prev } ∧
      Siblings nodes₁.next prev (ts.map root) ∧ ∀ a, a ∉ ts.map root → prev a = nodes₁.prev a := by
    cases ts with
    | nil => exact ⟨nodes₁.prev, rfl, Siblings.nil, fun _ _ => rfl⟩
    | cons t ts =>
        have ht : nodes₁.allocated t.root = true :=
          h.laid.allocated (mem_flat List.mem_cons_self (root_mem t))
        refine ⟨_, run_setPrev _ ht,
          h.links.move (hroots.nodup h.nodup) (fun _ _ _ => rfl) ?_ ?_ ?_, fun a ha => ?_⟩
        · intro a _ hne
          have hat : a ≠ t.root := fun heq => hne (heq ▸ rfl)
          simp [hat]
        · exact fun a ha => h.links.last_eq a ha
        · intro a ha
          obtain rfl : t.root = a := by simpa using ha
          rw [Function.update_self]
        · have hat : a ≠ t.root := fun heq => ha (heq ▸ List.mem_cons_self)
          simp [hat]
  obtain ⟨nodes₂, hnodes₂⟩ : ∃ nodes₂ : Nodes Ptr, nodes₂ = { nodes₁ with
      prev := prev
      kind := Function.update nodes₁.kind p kind
      child := Function.update nodes₁.child p (ts.map root).head? } := ⟨_, rfl⟩
  have hsame : ∀ a, a ≠ p → nodes₁.SameNode nodes₂ a := by
    intro a hap
    subst hnodes₂
    constructor <;> simp [hap]
  have hlinks : ∀ a, a ∉ ts.map root →
      nodes₂.next a = nodes₁.next a ∧ nodes₂.prev a = nodes₁.prev a := by
    intro a ha
    subst hnodes₂
    exact ⟨rfl, hprev a ha⟩
  have hnot : ∀ a, nodes.allocated a = true → a ∉ ts.map root :=
    fun a ha hmem => hold a ha (hroots.subset hmem)
  have hsame_flat : ∀ a ∈ flat ts, nodes₁.SameNode nodes₂ a :=
    fun a ha => hsame a fun heq => hpts (heq ▸ ha)
  have hp_same := h.same p hp
  have hlinks_p := hlinks p (hnot p hp)
  refine ⟨nodes₂, ?_, ⟨⟨?_, ?_, ?_, ?_⟩, h.nodup, h.fresh, ?_, ?_, ?_, ?_⟩, ?_⟩
  · subst hnodes₂
    simp only [closeList_eq, Prog.run_bind, hrun, run_setKind, run_setChild, hp₁, Prog.run_pure]
  · subst hnodes₂
    exact hp₁
  · subst hnodes₂
    exact Function.update_self ..
  · subst hnodes₂
    exact hsib
  · refine laidAll_iff.mpr fun t ht =>
      (laidAll_iff.mp h.laid t ht).congr (hsame_flat _ (mem_flat ht (root_mem t))) ?_
    intro a ha
    have hnotroot := hlinks a (notMem_roots h.nodup ht ha)
    exact ⟨hsame_flat a (mem_flat ht (by rw [toList_eq]; exact List.mem_cons_of_mem _ ha)),
      hnotroot.1, hnotroot.2⟩
  · subst hnodes₂
    exact h.allocated
  · rw [hlinks_p.1, hp_same.next]
  · rw [hlinks_p.2, hp_same.prev]
  · intro a ha hap
    exact (h.same a ha).trans ⟨hsame a hap, (hlinks a (hnot a ha)).1, (hlinks a (hnot a ha)).2⟩
  · rw [item, items_congr hsame_flat]
    subst hnodes₂
    rw [← hp_same.string]
    simp

end Ends

/-! ## The parse functions -/

/-- Reading a value does what the function on values does. -/
def SimValue (A : Allocator Ptr) (x : ℕ → ParseValue Ptr) (pv : CppJson.ParseValue) : Prop :=
  ∀ (nodes : Nodes Ptr) (p : Ptr) (b : ParseBuffer), nodes.allocated p = true → nodes.child p = none →
    Returns (pv (nodes.string p) b) →
    Parses A nodes p (fun n => x n (some p) b) (pv (nodes.string p) b)

omit [DecidableEq Ptr] in
theorem Parses.of_eq {x y : ℕ → NodeProg Ptr (Option ParseBuffer)}
    {r : Except Stop (Item × ParseBuffer)} (h : Parses A nodes p x r) (heq : ∀ n, y n = x n) :
    Parses A nodes p y r := by
  obtain rfl : y = x := funext heq
  exact h

omit [DecidableEq Ptr] in
/-- The value is given up before a node is made. -/
theorem Parses.reject (hp : nodes.allocated p = true) (hchild : nodes.child p = none)
    {r : Except Stop (Item × ParseBuffer)}
    (hr : ∀ item b, r = .ok (item, b) → Starved A nodes (sizes item.child)) :
    Parses A nodes p (fun _ => pure none) r :=
  ⟨none, nodes, [], .of_run rfl, .refl hp hchild, rfl, hr⟩

theorem Parses.store (hp : nodes.allocated p = true) (hchild : nodes.child p = none)
    (r : Except Stop (Kind × ParseBuffer)) :
    Parses A nodes p (fun _ => storeKind (some p) r)
      (r.map fun (kind, b) => (.mk kind (nodes.string p) [], b)) := by
  rcases r with e | ⟨kind, b⟩
  · exact .reject hp hchild (by rintro item b ⟨⟩)
  · refine ⟨some b, { nodes with kind := Function.update nodes.kind p kind }, [], .of_run ?_, ?_, ?_⟩
    · rw [storeKind, Prog.run_bind_ok (run_setKind hp kind), Prog.run_pure]
    · have hleaf : Filled { nodes with kind := Function.update nodes.kind p kind }
        { nodes with kind := Function.update nodes.kind p kind } p [] := .refl hp hchild
      refine hleaf.of_same rfl rfl rfl fun a ha => ⟨⟨rfl, rfl, ?_, rfl⟩, rfl, rfl⟩
      simp [ha]
    · simp [Except.map, item, items]

/-! ### Strings -/

omit [DecidableEq Ptr] in
/-- The text that is read is that of the function on values, or there is no memory for it. -/
theorem allocateString_spec (nodes : Nodes Ptr) {b : ParseBuffer}
    (h : Returns (CppJson.parseString b)) :
    ∃ o, (allocateString A b).run nodes = .ok o nodes ∧
      match o with
      | some r => CppJson.parseString b = .ok r
      | none => ∀ r, CppJson.parseString b = .ok r → ∀ k, Starved A nodes k := by
  rcases hs : CppJson.parseString b with e | ⟨output, b'⟩
  · obtain rfl := h e hs
    exact ⟨none, by simp only [allocateString, hs, Prog.run_pure], by rintro r ⟨⟩⟩
  · cases hm : A.mallocString nodes (stringSize b) with
    | false =>
        refine ⟨none, ?_, fun _ _ _ => .inl ⟨nodes, stringSize b, hm⟩⟩
        simp [allocateString, hs, hm]
    | true =>
        refine ⟨some (output, b'), ?_, rfl⟩
        simp [allocateString, hs, hm]

theorem parseString_parses (hp : nodes.allocated p = true) (hchild : nodes.child p = none)
    {b : ParseBuffer} (h : Returns (CppJson.parseString b)) :
    Parses A nodes p (fun _ => parseString A (some p) b)
      ((CppJson.parseString b).map fun (s, b) => (.mk (.string s) (nodes.string p) [], b)) := by
  obtain ⟨o, hrun, hres⟩ := allocateString_spec (A := A) nodes h
  cases o with
  | none =>
      have hnone : Parses A nodes p (fun _ => pure none)
          ((CppJson.parseString b).map fun (s, b) => (.mk (.string s) (nodes.string p) [], b)) := by
        refine .reject hp hchild fun item b' hok => ?_
        rcases hs : CppJson.parseString b with e | r
        · rw [hs] at hok
          cases hok
        · exact hres r hs _
      obtain ⟨o, nodes', ts, hsettles, hfilled, hval⟩ := hnone
      exact ⟨o, nodes', ts, .after hrun hsettles, hfilled, hval⟩
  | some r =>
      obtain ⟨s, b'⟩ := r
      rw [hres]
      obtain ⟨o, nodes', ts, hsettles, hfilled, hval⟩ :=
        Parses.store (A := A) hp hchild (.ok (.string s, b'))
      exact ⟨o, nodes', ts, .after hrun hsettles, hfilled, hval⟩

section Lists

variable {x : ℕ → ParseValue Ptr} {pv : CppJson.ParseValue}
  {child : ParseBuffer → Except Stop (Item × ParseBuffer)}

omit [DecidableEq Ptr] in
theorem SimValue.element (h : SimValue A x pv) :
    SimChild A (fun n => parseElement (x n)) (elementOf pv) := by
  intro nodes q b hq hchild hstring hreturns
  have hvalue := h nodes q (bufferSkipWhitespace (b.advance 1)) hq hchild
  rw [hstring] at hvalue
  exact hvalue hreturns

theorem SimValue.member (h : SimValue A x pv) :
    SimChild A (fun n => parseMember A (x n)) (memberOf pv) := by
  intro nodes q b hq hchild _ hreturns
  have hname_returns : Returns (CppJson.parseString (bufferSkipWhitespace (b.advance 1))) := by
    refine fun e hname => hreturns e ?_
    rw [memberOf, hname]
    rfl
  obtain ⟨o, hrun_name, hres⟩ := allocateString_spec (A := A) nodes hname_returns
  cases o with
  | none =>
      refine ⟨none, nodes, [], ⟨0, fun n _ => ?_⟩, .refl hq hchild, rfl, fun item b' hok => ?_⟩
      · simp only [parseMember, parseName, Prog.run_bind, hrun_name, Prog.run_pure]
      · rcases hname : CppJson.parseString (bufferSkipWhitespace (b.advance 1)) with e | r
        · rw [memberOf, hname] at hok
          cases hok
        · exact hres r hname _
  | some r =>
      obtain ⟨s, b₁⟩ := r
      have hr : memberOf pv b =
          if (bufferSkipWhitespace b₁).peek ≠ some (byte ':') then .error .rejected
          else pv (some s) (bufferSkipWhitespace ((bufferSkipWhitespace b₁).advance 1)) := by
        rw [memberOf, hres]
        simp only [bind, Except.bind]
        split <;> rfl
      -- the name is stored, and then the value is read
      have hrun : ∀ n, (parseMember A (x n) (some q) b).run nodes =
          (if (bufferSkipWhitespace b₁).peek = some (byte ':') then
            x n (some q) (bufferSkipWhitespace ((bufferSkipWhitespace b₁).advance 1))
          else pure none).run { nodes with string := Function.update nodes.string q (some s) } := by
        intro n
        simp only [parseMember, parseName, Prog.run_bind, hrun_name, run_setString, hq, Prog.run_pure]
      have hsame : ∀ a, a ≠ q →
          nodes.SameAt { nodes with string := Function.update nodes.string q (some s) } a := by
        refine fun a ha => ⟨⟨rfl, rfl, rfl, ?_⟩, rfl, rfl⟩
        simp [ha]
      rw [hr] at hreturns ⊢
      by_cases hcolon : (bufferSkipWhitespace b₁).peek = some (byte ':')
      · simp only [hcolon, ne_eq, not_true_eq_false, ↓reduceIte] at hreturns hrun ⊢
        have hvalue := h { nodes with string := Function.update nodes.string q (some s) } q
          (bufferSkipWhitespace ((bufferSkipWhitespace b₁).advance 1)) hq hchild
        simp only [Function.update_self] at hvalue
        obtain ⟨o, nodes', ts, hsettles, hfilled, hval⟩ := hvalue hreturns
        exact ⟨o, nodes', ts, hsettles.of_eq hrun, hfilled.of_same rfl rfl rfl hsame, hval⟩
      · simp only [hcolon, ne_eq, not_false_eq_true, ↓reduceIte] at hrun ⊢
        refine ⟨none, _, [], (Prog.Settles.of_run rfl).of_eq hrun, ?_, rfl, by rintro item b ⟨⟩⟩
        have hleaf : Filled { nodes with string := Function.update nodes.string q (some s) }
          { nodes with string := Function.update nodes.string q (some s) } q [] := .refl hq hchild
        exact hleaf.of_same rfl rfl rfl hsame

theorem parseList_parses (hsim : SimChild A x child) (hp : nodes.allocated p = true)
    (hchild : nodes.child p = none) {kind : Kind} {opening closing : UInt8} {b : ParseBuffer}
    (hdepth : b.depth < nestingLimit)
    (hreturns : Returns (container opening closing (fun items => .mk kind (nodes.string p) items)
      (fun b' => chainLoop child (b'.content.length + 1) b') b)) :
    Parses A nodes p (fun n => parseList A n kind opening closing (x n) (some p) b)
      (container opening closing (fun items => .mk kind (nodes.string p) items)
        (fun b' => chainLoop child (b'.content.length + 1) b') b) := by
  simp only [parseList, container, if_neg (not_le.mpr hdepth), ne_eq, ite_not] at hreturns ⊢
  by_cases hopen : b.enter.peek = some opening
  · simp only [hopen, ↓reduceIte] at hreturns ⊢
    by_cases hempty : (bufferSkipWhitespace (b.enter.advance 1)).peek = some closing
    · simp only [hempty, ↓reduceIte] at hreturns ⊢
      obtain ⟨nodes', hrun, hfilled, hitem⟩ :=
        (Chain.nil nodes).close hp kind (bufferSkipWhitespace (b.enter.advance 1))
      refine ⟨_, nodes', [], .of_run hrun, hfilled, ?_⟩
      dsimp only
      rw [hitem]
      rfl
    · simp only [hempty, ↓reduceIte] at hreturns ⊢
      by_cases hend : (bufferSkipWhitespace (b.enter.advance 1)).peek = none
      · simp only [hend, ↓reduceIte]
        exact .reject hp hchild (by rintro item b ⟨⟩)
      · simp only [hend, ↓reduceIte] at hreturns ⊢
        obtain ⟨b₁, hb₁⟩ : ∃ b₁, b₁ = (bufferSkipWhitespace (b.enter.advance 1)).stepBack := ⟨_, rfl⟩
        have hlength : (bufferSkipWhitespace (b.enter.advance 1)).content.length =
            b₁.content.length := by rw [hb₁]; rfl
        rw [← hb₁] at hreturns ⊢
        simp only [hlength]
        have hloop_returns : Returns (chainLoop child (b₁.content.length + 1) b₁) :=
          fun e heq => hreturns e (by rw [heq]; rfl)
        obtain ⟨nodes', us, o, hrun, hchain, -, hres⟩ :=
          parseChildren_spec hsim (Chain.nil nodes) hloop_returns
        rw [List.nil_append] at hrun hchain
        cases o with
        | none =>
            obtain ⟨hdrop, hleaf⟩ := hchain.drop hp hchild
            refine ⟨none, _, [], hrun.bind hdrop, hleaf, rfl, fun item b' hok => ?_⟩
            rcases hitems : chainLoop child (b₁.content.length + 1) b₁ with e | ⟨items, b₂⟩
            · rw [hitems] at hok
              cases hok
            · have hstarved := hres items b₂ hitems
              rw [hitems] at hok
              simp only [bind, Except.bind] at hok
              split at hok
              · cases hok
                exact hstarved
              · cases hok
        | some last =>
            obtain ⟨currentItem, b₂⟩ := last
            obtain ⟨hlast, hitems⟩ := hres
            rw [List.nil_append] at hlast
            rw [hitems]
            by_cases hclose : b₂.peek = some closing
            · obtain ⟨nodes₂, hclosed, hfilled, hitem⟩ := hchain.close hp kind b₂
              refine ⟨_, nodes₂, us, hrun.bind (.of_eq (.of_run hclosed) fun n => ?_), hfilled, ?_⟩
              · simp only [hclose, ↓reduceIte, hlast]
              · dsimp only
                rw [hitem]
                simp [bind, Except.bind, hclose]
                rfl
            · obtain ⟨hdrop, hleaf⟩ := hchain.drop hp hchild
              refine ⟨none, _, [], hrun.bind (hdrop.of_eq fun n => ?_), hleaf, rfl, ?_⟩
              · simp only [hclose, ↓reduceIte]
              · intro item b' hok
                simp [bind, Except.bind, hclose, throw, throwThe, MonadExceptOf.throw] at hok
  · simp only [hopen, ↓reduceIte]
    exact .reject hp hchild (by rintro item b ⟨⟩)

theorem SimValue.array (h : SimValue A x pv) :
    SimValue A (fun n => parseArray A (x n) n) (fun string b => CppJson.parseArray pv string b) := by
  intro nodes p b hp hchild hreturns
  dsimp only at hreturns ⊢
  by_cases hdepth : b.depth < nestingLimit
  · rw [parseArray_eq (nodes.string p) hdepth] at hreturns ⊢
    simp only [parseElements_eq_chainLoop] at hreturns ⊢
    exact parseList_parses h.element hp hchild hdepth hreturns
  · rw [parseArray_limit _ (by omega)]
    refine (Parses.reject hp hchild (by rintro item b ⟨⟩)).of_eq fun n => ?_
    rw [parseArray, parseList, if_pos (not_lt.mp hdepth)]

theorem SimValue.object (h : SimValue A x pv) :
    SimValue A (fun n => parseObject A (x n) n) (fun string b => CppJson.parseObject pv string b) := by
  intro nodes p b hp hchild hreturns
  dsimp only at hreturns ⊢
  by_cases hdepth : b.depth < nestingLimit
  · rw [parseObject_eq (nodes.string p) hdepth] at hreturns ⊢
    simp only [parseMembers_eq_chainLoop] at hreturns ⊢
    exact parseList_parses h.member hp hchild hdepth hreturns
  · rw [parseObject_limit _ (by omega)]
    refine (Parses.reject hp hchild (by rintro item b ⟨⟩)).of_eq fun n => ?_
    rw [parseObject, parseList, if_pos (not_lt.mp hdepth)]

end Lists

theorem parseValue_sim (n : ℕ) :
    SimValue A (fun fuel => parseValue A fuel n) (CppJson.parseValue n) := by
  induction n with
  | zero =>
      intro nodes p b _ _ hreturns
      cases hreturns _ rfl
  | succ n ih =>
      intro nodes p b hp hchild hreturns
      simp only [parseValue, CppJson.parseValue] at hreturns ⊢
      by_cases hnull : ascii "null" <+: b.rest
      · simp only [hnull, ↓reduceIte]
        exact .store hp hchild (.ok (.null, b.advance 4))
      by_cases hfalse : ascii "false" <+: b.rest
      · simp only [hnull, hfalse, ↓reduceIte]
        exact .store hp hchild (.ok (.false, b.advance 5))
      by_cases htrue : ascii "true" <+: b.rest
      · simp only [hnull, hfalse, htrue, ↓reduceIte]
        exact .store hp hchild (.ok (.true, b.advance 4))
      simp only [hnull, hfalse, htrue, ↓reduceIte] at hreturns ⊢
      cases hpeek : b.peek with
      | none => exact .reject hp hchild (by rintro item b ⟨⟩)
      | some c =>
          rw [hpeek] at hreturns
          dsimp only at hreturns ⊢
          by_cases hquote : c = byte '"'
          · simp only [if_pos hquote] at hreturns ⊢
            have hstring := parseString_parses (A := A) (p := p) (b := b) hp hchild fun e hs =>
              hreturns e (by rw [hs]; rfl)
            rcases hs : CppJson.parseString b with e | ⟨s, b₁⟩ <;> (rw [hs] at hstring; exact hstring)
          by_cases hdigit : c = byte '-' ∨ isDigit c
          · simp only [hquote, hdigit, ↓reduceIte]
            have hstore :=
              Parses.store (A := A) hp hchild ((CppJson.parseNumber b).map fun r => (.number r.1, r.2))
            rcases hn : CppJson.parseNumber b with e | ⟨number, b₁⟩ <;>
              (simp only [parseNumber, hn] at hstore ⊢; exact hstore)
          by_cases hbracket : c = byte '['
          · simp only [if_neg hquote, if_neg hdigit, if_pos hbracket] at hreturns ⊢
            exact ih.array nodes p b hp hchild hreturns
          by_cases hbrace : c = byte '{'
          · simp only [if_neg hquote, if_neg hdigit, if_neg hbracket, if_pos hbrace] at hreturns ⊢
            exact ih.object nodes p b hp hchild hreturns
          simp only [hquote, hdigit, hbracket, hbrace, ↓reduceIte]
          exact .reject hp hchild (by rintro item b ⟨⟩)

/-! ## Texts -/

/-- What `cJSON_ParseWithLengthOpts` leaves in memory: the nodes of the tree that the function on
values gives, or nothing when that gives none or memory runs out. -/
theorem cjsonParseWithLengthOpts_sim (nodes : Nodes Ptr) {value : List UInt8}
    {requireNullTerminated : Bool}
    (hread : CppJson.cjsonParseWithLengthOpts value requireNullTerminated ≠ .error .overread) :
    ∃ r nodes', Prog.Settles (fun n => cjsonParseWithLengthOpts A n value requireNullTerminated)
      nodes r nodes' ∧
      match r with
      | some (p, e) => ∃ ts, Chain nodes nodes' [.node p ts] ∧
          CppJson.cjsonParseWithLengthOpts value requireNullTerminated =
            .ok (nodes'.item (.node p ts), e)
      | none => (∀ a, nodes'.allocated a = true ↔ nodes.allocated a = true) ∧
          (∀ a, nodes.allocated a = true → nodes.SameAt nodes' a) ∧
          ∀ item e, CppJson.cjsonParseWithLengthOpts value requireNullTerminated = .ok (item, e) →
            Starved A nodes item.size := by
  by_cases hvalue : value = []
  · refine ⟨none, nodes, ⟨0, fun n _ => ?_⟩, fun _ => .rfl, fun a _ => .refl nodes a,
      fun item e hok => ?_⟩
    · simp only [cjsonParseWithLengthOpts, if_pos hvalue, Prog.run_pure]
    · rw [CppJson.cjsonParseWithLengthOpts, if_pos hvalue] at hok
      cases hok
  have hparsed := parsed_text value
  obtain ⟨b₀, hb₀⟩ : ∃ b₀, b₀ = bufferSkipWhitespace (skipUtf8Bom ⟨value, 0, 0⟩) := ⟨_, rfl⟩
  simp only [CppJson.cjsonParseWithLengthOpts, if_neg hvalue, ← hb₀] at hread hparsed ⊢
  cases hm : A.malloc nodes with
  | none =>
      refine ⟨none, nodes, ⟨0, fun n _ => ?_⟩, fun _ => .rfl, fun a _ => .refl nodes a,
        fun item e _ => ?_⟩
      · simp [cjsonParseWithLengthOpts, hvalue, Allocator.allocate, Prog.run_bind, hm, cjsonNewItem]
      · refine .inr ⟨nodes, [], hm, ?_, fun a ha => .inl ha⟩
        rw [size_eq_child, List.length_nil]
        omega
  | some p =>
      have hp := A.fresh nodes p hm
      have hreturns : Returns (CppJson.parseValue (nestingLimit + 1) none b₀) := by
        intro e he
        rw [he] at hparsed hread
        cases e with
        | rejected => rfl
        | overread => exact absurd rfl hread
        | outOfFuel => exact hparsed.elim
      have hsim :=
        parseValue_sim (A := A) (nestingLimit + 1) (nodes.withNew p) p b₀
          (allocated_withNew.mpr (.inr rfl)) (by simp [withNew])
      have hname : (nodes.withNew p).string p = none := by simp [withNew]
      rw [hname] at hsim
      obtain ⟨o, nodes₁, ts, hrun, hfilled, hres⟩ := hsim hreturns
      have hsingle : Chain nodes (nodes.withNew p) ([] ++ [.node p []]) := .single hp
      have hchain : Chain nodes nodes₁ [.node p ts] := (hsingle.fill hfilled).1
      obtain ⟨hdelete, halloc, hsame⟩ := hchain.deleted
      have hstart : ∀ n, (cjsonParseWithLengthOpts A n value requireNullTerminated).run nodes =
          (parseValue A n (nestingLimit + 1) (some p) b₀ >>= endParse n p requireNullTerminated).run
            (nodes.withNew p) := by
        intro n
        simp only [cjsonParseWithLengthOpts, if_neg hvalue, ← hb₀, Allocator.allocate,
          Prog.run_bind, Prog.run_get, Prog.run_pure, hm, run_cjsonNewItem]
      cases o with
      | none =>
          obtain ⟨rfl, hstarved⟩ := hres
          refine ⟨none, _, .of_eq (hrun.bind (hdelete.bind (.of_run rfl))) hstart, halloc, hsame,
            fun item e hok => ?_⟩
          rcases hr : CppJson.parseValue (nestingLimit + 1) none b₀ with e' | ⟨item', b⟩
          · rw [hr] at hok
            cases hok
          · have heq : item = item' := by
              rw [hr] at hok
              dsimp only at hok
              split at hok
              · split at hok
                · cases hok
                  rfl
                · cases hok
              · cases hok
                rfl
            refine (hstarved item' b hr).shift (l := [p]) (fun a ha => ?_) ?_
            · rw [List.mem_singleton]
              exact allocated_withNew.mp ha
            · rw [heq, size_eq_child, List.length_singleton]
      | some b =>
          rw [hres]
          cases requireNullTerminated with
          | false => exact ⟨some (p, b.offset), nodes₁, .of_eq (hrun.bind (.of_run rfl)) hstart,
              ts, hchain, rfl⟩
          | true =>
              by_cases hzero : (bufferSkipWhitespace b).peek = some 0
              · refine ⟨some (p, (bufferSkipWhitespace b).offset), nodes₁,
                  .of_eq (hrun.bind ⟨0, fun n _ => ?_⟩) hstart, ts, hchain, ?_⟩
                · simp [endParse, hzero]
                · simp [hzero]
              · have hdrop : Prog.Settles (fun n => (do cjsonDelete n (some p); return none :
                    NodeProg Ptr (Option (Ptr × ℕ)))) nodes₁ none
                      (nodes₁.release (flat [.node p ts])) :=
                  hdelete.bind (.of_run rfl)
                refine ⟨none, _, .of_eq (hrun.bind (hdrop.of_eq fun n => ?_)) hstart, halloc, hsame, ?_⟩
                · simp [endParse, hzero]
                · simp [hzero]

end Nodes

end CppJson
