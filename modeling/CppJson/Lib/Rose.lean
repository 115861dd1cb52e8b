import CppJson.Lib.Forest

/-!
# Rose trees

A node with a list of trees under it. Every node of a forest spans the tree of the nodes under it
(`exists_spans`).
-/

namespace CppJson

inductive Rose (α : Type) where
  | node (a : α) (branches : List (Rose α))

namespace Rose

variable {α : Type}

def root : Rose α → α
  | node a _ => a

def branches : Rose α → List (Rose α)
  | node _ ts => ts

@[simp] theorem root_node (a : α) (ts : List (Rose α)) : (node a ts).root = a := rfl
@[simp] theorem branches_node (a : α) (ts : List (Rose α)) : (node a ts).branches = ts := rfl

mutual
/-- The nodes of a tree, from the root down. -/
def toList : Rose α → List α
  | node a ts => a :: flat ts

def flat : List (Rose α) → List α
  | [] => []
  | t :: ts => t.toList ++ flat ts
end

theorem toList_node (a : α) (ts : List (Rose α)) : (node a ts).toList = a :: flat ts := rfl
@[simp] theorem flat_nil : flat ([] : List (Rose α)) = [] := rfl
@[simp] theorem flat_cons (t : Rose α) (ts : List (Rose α)) :
    flat (t :: ts) = t.toList ++ flat ts := rfl

theorem flat_append (ts us : List (Rose α)) : flat (ts ++ us) = flat ts ++ flat us := by
  induction ts with
  | nil => rfl
  | cons t ts ih => rw [List.cons_append, flat_cons, flat_cons, ih, List.append_assoc]

theorem root_mem (t : Rose α) : t.root ∈ t.toList := by
  cases t
  exact List.mem_cons_self

theorem roots_sublist (ts : List (Rose α)) : (ts.map root).Sublist (flat ts) := by
  induction ts with
  | nil => exact .slnil
  | cons t ts ih =>
      obtain ⟨a, us⟩ := t
      exact (ih.trans (List.sublist_append_right (flat us) (flat ts))).cons_cons a

theorem mem_flat {t : Rose α} {ts : List (Rose α)} {a : α} (ht : t ∈ ts) (ha : a ∈ t.toList) :
    a ∈ flat ts := by
  induction ts with
  | nil => cases ht
  | cons u ts ih =>
      rw [flat_cons, List.mem_append]
      rcases List.mem_cons.mp ht with rfl | ht
      · exact .inl ha
      · exact .inr (ih ht)

theorem toList_eq (t : Rose α) : t.toList = t.root :: flat t.branches := by
  cases t
  rfl

/-- What is below a root is not a root. -/
theorem notMem_roots {t : Rose α} {ts : List (Rose α)} {a : α} (hnodup : (flat ts).Nodup) (ht : t ∈ ts)
    (ha : a ∈ flat t.branches) : a ∉ ts.map root := by
  induction ts with
  | nil => cases ht
  | cons u ts ih =>
      rw [flat_cons, List.nodup_append] at hnodup
      obtain ⟨hu, hts, hdisj⟩ := hnodup
      rw [List.map_cons, List.mem_cons, not_or]
      rcases List.mem_cons.mp ht with rfl | ht
      · rw [toList_eq, List.nodup_cons] at hu
        refine ⟨fun heq => hu.1 (heq ▸ ha), fun hroot => ?_⟩
        exact hdisj a (by rw [toList_eq]; exact List.mem_cons_of_mem _ ha) a
          ((roots_sublist ts).subset hroot) rfl
      · have hmem : a ∈ flat ts := mem_flat ht (by rw [toList_eq]; exact List.mem_cons_of_mem _ ha)
        exact ⟨fun heq => hdisj u.root (root_mem u) a hmem heq.symm, ih hts ht⟩

/-! ## Trees in a forest -/

mutual
/-- The tree that a node spans. -/
def Spans (children : α → List α) : Rose α → Prop
  | node a ts => children a = ts.map root ∧ SpansAll children ts

def SpansAll (children : α → List α) : List (Rose α) → Prop
  | [] => True
  | t :: ts => Spans children t ∧ SpansAll children ts
end

variable {children children' : α → List α} {alive : α → Prop}

mutual
theorem Spans.mem_iff {a : α} :
    {t : Rose α} → Spans children t → (a ∈ t.toList ↔ Within children a t.root)
  | node p ts, ⟨hchildren, hts⟩ => by
      rw [toList_node, List.mem_cons, SpansAll.mem_iff hts, root_node, within_iff (p := p), hchildren]

theorem SpansAll.mem_iff {a : α} : {ts : List (Rose α)} → SpansAll children ts →
    (a ∈ flat ts ↔ ∃ r ∈ ts.map root, Within children a r)
  | [], _ => by simp
  | t :: ts, ⟨ht, hts⟩ => by
      rw [flat_cons, List.mem_append, Spans.mem_iff ht, SpansAll.mem_iff hts, List.map_cons,
        List.exists_mem_cons_iff]
end

mutual
theorem Spans.nodup (hf : Forest alive children) : {t : Rose α} → Spans children t → t.toList.Nodup
  | node p ts, ⟨hchildren, hts⟩ => by
      refine List.nodup_cons.mpr ⟨fun hp => ?_, SpansAll.nodup hf hts (hchildren ▸ hf.nodup p) ?_⟩
      · obtain ⟨r, hr, hpr⟩ := (SpansAll.mem_iff hts).mp hp
        exact hf.not_within (hchildren ▸ hr) hpr
      · rw [← hchildren]
        exact fun a b hb c hc hab hac => hf.eq_of_within hb hc hab hac

theorem SpansAll.nodup (hf : Forest alive children) : {ts : List (Rose α)} → SpansAll children ts →
    (ts.map root).Nodup → (∀ a, ∀ b ∈ ts.map root, ∀ c ∈ ts.map root, Within children a b →
      Within children a c → b = c) →
    (flat ts).Nodup
  | [], _, _, _ => List.nodup_nil
  | t :: ts, ⟨ht, hts⟩, hnodup, hdisj => by
      rw [List.map_cons, List.nodup_cons] at hnodup
      refine List.nodup_append.mpr ⟨Spans.nodup hf ht, SpansAll.nodup hf hts hnodup.2 ?_, ?_⟩
      · exact fun a b hb c hc => hdisj a b (List.mem_cons_of_mem _ hb) c (List.mem_cons_of_mem _ hc)
      · rintro a ha _ hb rfl
        obtain ⟨r, hr, har⟩ := (SpansAll.mem_iff hts).mp hb
        have heq := hdisj a t.root List.mem_cons_self r (List.mem_cons_of_mem _ hr)
          ((Spans.mem_iff ht).mp ha) har
        exact hnodup.1 (heq ▸ hr)
end

/-- Every node of a forest spans a tree. -/
theorem exists_spans (hf : Forest alive children) (p : α) :
    ∃ t : Rose α, t.root = p ∧ Spans children t := by
  obtain ⟨rank, hr⟩ := hf.ranked
  induction hk : rank p using Nat.strong_induction_on generalizing p with
  | _ k ih =>
      have hlist : ∀ l : List α, (∀ a ∈ l, a ∈ children p) → ∃ ts : List (Rose α), ts.map root = l ∧
          SpansAll children ts := by
        intro l hl
        induction l with
        | nil => exact ⟨[], rfl, trivial⟩
        | cons a l ihl =>
            rw [List.forall_mem_cons] at hl
            obtain ⟨t, rfl, ht⟩ := ih (rank a) (hk ▸ hr a p hl.1) a rfl
            obtain ⟨ts, rfl, hts⟩ := ihl hl.2
            exact ⟨t :: ts, rfl, ht, hts⟩
      obtain ⟨ts, hts, hspans⟩ := hlist (children p) fun _ ha => ha
      exact ⟨node p ts, rfl, hts.symm, hspans⟩

mutual
theorem Spans.congr :
    {t : Rose α} → Spans children t → (∀ a ∈ t.toList, children' a = children a) → Spans children' t
  | node p ts, ⟨hchildren, hts⟩, h => by
      rw [toList_node, List.forall_mem_cons] at h
      exact ⟨h.1.trans hchildren, SpansAll.congr hts h.2⟩

theorem SpansAll.congr :
    {ts : List (Rose α)} → SpansAll children ts → (∀ a ∈ flat ts, children' a = children a) →
    SpansAll children' ts
  | [], _, _ => trivial
  | t :: ts, ⟨ht, hts⟩, h => by
      rw [flat_cons, List.forall_mem_append] at h
      exact ⟨Spans.congr ht h.1, SpansAll.congr hts h.2⟩
end

mutual
/-- A tree without a node twice is a forest. -/
theorem exists_forest : (t : Rose α) → t.toList.Nodup →
    ∃ children, Forest (· ∈ t.toList) children ∧ Spans children t ∧ ∀ q, t.root ∉ children q
  | node p ts, hnodup => by
      classical
      obtain ⟨hp, hts⟩ := List.nodup_cons.mp hnodup
      obtain ⟨children, hf, hspans, hroots⟩ := exists_forestAll ts hts
      have hroot : ∀ a, a ∈ children p → a ∈ flat ts := fun a ha => (hf.alive a p ha).1
      have hmem : ∀ r ∈ ts.map root, r ∈ flat ts := fun r hr => (roots_sublist ts).subset hr
      refine ⟨Function.update children p (ts.map root), ?_, ⟨by simp, ?_⟩, fun q hq => ?_⟩
      · refine (hf.mono fun a ha => List.mem_cons_of_mem p ha).update List.mem_cons_self
          (hts.sublist (roots_sublist ts)) (fun r hr => List.mem_cons_of_mem p (hmem r hr))
          fun r hr => ?_
        refine .inr ⟨hroots r hr, fun hw => hp ?_⟩
        exact hf.alive_of_within (hmem r hr) hw
      · refine hspans.congr fun a ha => Function.update_of_ne ?_ _ _
        exact fun heq => hp (heq ▸ ha)
      · by_cases hqp : q = p
        · rw [hqp, Function.update_self] at hq
          exact hp (hmem p hq)
        · rw [Function.update_of_ne hqp] at hq
          exact hp (hf.alive p q hq).1

theorem exists_forestAll : (ts : List (Rose α)) → (flat ts).Nodup →
    ∃ children, Forest (· ∈ flat ts) children ∧ SpansAll children ts ∧
      ∀ r ∈ ts.map root, ∀ q, r ∉ children q
  | [], _ => ⟨fun _ => [], ⟨fun _ => List.nodup_nil, by simp, by simp, fun _ => 0, by simp⟩,
      trivial, by simp⟩
  | t :: ts, hnodup => by
      obtain ⟨ht, hts, hdisj⟩ := List.nodup_append.mp hnodup
      obtain ⟨children, hf, hspans, hroot⟩ := exists_forest t ht
      obtain ⟨children', hf', hspans', hroots⟩ := exists_forestAll ts hts
      have hout : ∀ a ∈ t.toList, a ∉ flat ts := fun a ha ha' => hdisj a ha a ha' rfl
      have hleft : ∀ a ∈ t.toList, children' a = [] := fun a ha => hf'.children_eq_nil (hout a ha)
      have hright : ∀ a ∈ flat ts, children a = [] :=
        fun a ha => hf.children_eq_nil fun ha' => hout a ha' ha
      refine ⟨fun q => children q ++ children' q, ?_, ⟨?_, ?_⟩, ?_⟩
      · simpa only [flat_cons, List.mem_append] using hf.union hf' hout
      · exact hspans.congr fun a ha => by rw [hleft a ha, List.append_nil]
      · exact hspans'.congr fun a ha => by rw [hright a ha, List.nil_append]
      · intro r hr q hq
        rw [List.mem_append] at hq
        rcases List.mem_cons.mp hr with rfl | hr <;> rcases hq with hq | hq
        · exact hroot q hq
        · exact hout _ (root_mem t) (hf'.alive _ q hq).1
        · exact hout r (hf.alive r q hq).1 ((roots_sublist ts).subset hr)
        · exact hroots r hr q hq
end

end Rose

end CppJson
