import CppJson.CJson.Lemmas.Planted

/-!
# Trees in memory

What callers rely on when they build trees of nodes, look into them and throw them away: no call
follows NULL or a freed node, memory has the nodes of the trees and no others, and every tree is
what the calls made it.
-/

namespace CppJson

open Shape Nodes

variable {Ptr : Type} [DecidableEq Ptr] {nodes : Nodes Ptr} {s : Shape Ptr}

/-! ## Runs of calls -/

/-- Calls in any order, each on nodes that it may be made on, return what they should and change the
trees as they should. In particular none of them fails. -/
theorem calls_change_trees (h : nodes.Represents s) (cs : List (Command Ptr))
    (hcs : Command.AllLegal s cs) :
    ∃ N, ∀ n ≥ N, ∃ nodes', (Prog.collect (Command.exec n) cs).run nodes =
      .ok (Command.answers s cs) nodes' ∧
      nodes'.Represents (Command.applyAll s cs) := by
  obtain ⟨N, hN⟩ := refines_collect ⟨nodes, h⟩ cs hcs
  refine ⟨N, fun n hn => ?_⟩
  have hpost := hN n hn nodes h
  cases hrun : (Prog.collect (Command.exec n) cs).run nodes with
  | ok r nodes' =>
      rw [hrun] at hpost
      obtain ⟨rfl, h'⟩ := hpost
      exact ⟨nodes', rfl, h'⟩
  | stop _ _ =>
      rw [hrun] at hpost
      exact hpost.elim

/-- An object with one member is made, looked into and deleted. -/
def memberCalls : List (Command ℕ) :=
  [.create 0 .object, .create 1 .true, .addItemToObject 0 ⟨ascii "on", by decide⟩ 1,
    .getObjectItem 0 ⟨ascii "on", by decide⟩ true, .delete 0]

theorem allLegal_memberCalls : Command.AllLegal Shape.empty memberCalls := by
  have hrealized : (Shape.empty : Shape ℕ).Realized := ⟨.empty, represents_empty⟩
  have hdead : ∀ x : ℕ, ¬(Shape.empty : Shape ℕ).live x := fun _ h => h
  have hobject := (refines_create (hdead 0) .object).realized hrealized
  have hlive : ((Shape.empty : Shape ℕ).create 0 .object).live 0 := .inl rfl
  have hnext : ¬((Shape.empty : Shape ℕ).create 0 .object).live 1 := by simp [Shape.create, Shape.empty]
  have hadd := addable_create hobject hnext hlive .true
  refine ⟨hdead 0, hnext, ⟨.inr hlive, hadd⟩, .inr hlive, ⟨.inr hlive, fun q => ?_⟩, trivial⟩
  by_cases hq : q = 0 <;> by_cases hq' : q = 1 <;>
    simp_all [Command.apply, Shape.create, Shape.rename, Shape.setChildren, Shape.empty]

theorem calls_change_trees_member :
    ∃ N, ∀ n ≥ N, ∃ nodes', (Prog.collect (Command.exec n) memberCalls).run Nodes.empty =
      .ok [.node (some 0), .node (some 1), .bool true, .node (some 1), .nothing] nodes' ∧
      nodes'.Represents (Command.applyAll Shape.empty memberCalls) := by
  have h := calls_change_trees represents_empty memberCalls allLegal_memberCalls
  have hanswers : Command.answers Shape.empty memberCalls =
      [.node (some 0), .node (some 1), .bool true, .node (some 1), .nothing] := by
    simp [memberCalls, Command.answers, Command.answer, Command.apply, Shape.member,
      Shape.create, Shape.rename, Shape.setChildren, Nodes.stopsAt]
  rwa [hanswers] at h

/-! ## Parsing -/

/-- What a parse function may leave behind in memory of the shape `s`, where `value` is what the
text stands for. -/
def Shape.Parsed (A : Allocator Ptr) (s s' : Shape Ptr) (value : Except Stop (Item × ℕ)) :
    Option (Ptr × ℕ) → Prop
  | some (p, e) => ∃ item, value = .ok (item, e) ∧ s.Added s' p item
  | none => (∀ a, s'.live a ↔ s.live a) ∧ ∀ item e m (l : List Ptr), value = .ok (item, e) → A.Room m →
      (∀ a, s.live a → a ∈ l) → m < l.length + item.size

/-- A pool with places for `m` nodes, and memory for every string. -/
def pool (m : ℕ) : Allocator ℕ where
  malloc nodes := (List.range m).find? fun a => !nodes.allocated a
  fresh nodes a h := by simpa using List.find?_some h
  mallocString _ _ := true

theorem room_pool (m : ℕ) : (pool m).Room m where
  string _ _ := rfl
  node nodes l hl hlen hnone := by
    have hfull : List.range m ⊆ l := fun a ha => hl a (by simpa using List.find?_eq_none.mp hnone a ha)
    have := (List.nodup_range.subperm hfull).length_le
    rw [List.length_range] at this
    omega

/-- Memory after `cJSON_Parse` and `cJSON_Delete` is as before. -/
theorem parse_then_delete (A : Allocator Ptr) (h : nodes.Represents s) (value : CStr) :
    ∃ nodes' s', Prog.Settles (fun n => do
        let root ← Nodes.cjsonParse A n value
        Nodes.cjsonDelete n root) nodes () nodes' ∧
      nodes'.Represents s' ∧ (∀ a, s'.live a ↔ s.live a) ∧ ∀ a, s.live a → s.SameAt s' a := by
  obtain ⟨r, nodes₁, hrun, hres⟩ :=
    Nodes.cjsonParseWithLengthOpts_sim (A := A) nodes (ne_overread_of_nul value false)
  have hparse : Prog.Settles (fun n => Nodes.cjsonParse A n value) nodes (r.map Prod.fst) nodes₁ :=
    hrun.bind (.of_run rfl)
  cases r with
  | none =>
      obtain ⟨h₁, hsame⟩ := h.untouched hres.1 hres.2.1
      refine ⟨nodes₁, _, hparse.bind ⟨1, fun n hn => ?_⟩, h₁, fun _ => .rfl, hsame⟩
      obtain ⟨n, rfl⟩ : ∃ k, n = k + 1 := ⟨n - 1, by omega⟩
      simp [Nodes.cjsonDelete]
  | some r =>
      obtain ⟨p, e⟩ := r
      obtain ⟨ts, hchain, -⟩ := hres
      obtain ⟨s₁, h₁, hadded, hsame⟩ := hchain.represents h
      have hp : s₁.live p := (hadded.live p).mpr (.inr .refl)
      obtain ⟨nodes₂, hdelete, h₂⟩ :=
        (refines_delete ⟨nodes₁, h₁⟩ hp hadded.root).settles (cjsonDelete_mono _) h₁
      refine ⟨nodes₂, s₁.delete p, hparse.bind hdelete, h₂, fun a => ?_, fun a ha => ?_⟩
      · constructor
        · rintro ⟨ha, hout⟩
          exact ((hadded.live a).mp ha).resolve_right hout
        · exact fun ha => ⟨(hadded.live a).mpr (.inl ha), fun hin => hadded.fresh a hin ha⟩
      · have hout : ¬Within s₁.children a p := fun hin => hadded.fresh a hin ha
        have hsame := hsame a ha
        refine ⟨?_, hsame.kind, hsame.name⟩
        rw [← hsame.children]
        exact if_neg hout

theorem parse_then_delete_pool :
    ∃ nodes' s', Prog.Settles (fun n => do
        let root ← Nodes.cjsonParse (pool 2) n (cstr (ascii "[1]"))
        Nodes.cjsonDelete n root) Nodes.empty () nodes' ∧
      nodes'.Represents s' ∧ (∀ a, s'.live a ↔ (Shape.empty : Shape ℕ).live a) ∧
      ∀ a, (Shape.empty : Shape ℕ).live a → Shape.empty.SameAt s' a :=
  parse_then_delete (pool 2) represents_empty (cstr (ascii "[1]"))

end CppJson
