import Mathlib.Data.List.Find
import CppJson.CJson.Shape
import CppJson.CJson.Lemmas.Deletion

/-!
# The functions on nodes do what they are for

Each call on memory that represents a shape leaves memory that represents the changed shape
(`Refines`), and so does a run of calls (`refines_runAll`). No call follows NULL or a freed node.
-/

namespace CppJson

open Nodes

variable {Ptr : Type} {nodes nodes' : Nodes Ptr} {s s' s'' : Shape Ptr} {p x y : Ptr}
  {l l₁ l₂ : List Ptr}

structure Nodes.Represents (nodes : Nodes Ptr) (s : Shape Ptr) : Prop where
  live : ∀ a, nodes.allocated a = true ↔ s.live a
  holds : nodes.Holds s.children
  kind : nodes.kind = s.kind
  name : nodes.string = s.name

theorem represents_empty : (Nodes.empty : Nodes Ptr).Represents Shape.empty where
  live := by simp [Nodes.empty, Shape.empty]
  holds := holds_empty
  kind := rfl
  name := rfl

/-- Shapes that memory can have. -/
def Shape.Realized (s : Shape Ptr) : Prop := ∃ nodes : Nodes Ptr, nodes.Represents s

theorem Shape.Realized.forest (h : s.Realized) : Forest s.live s.children := by
  obtain ⟨nodes, h⟩ := h
  simpa only [h.live] using h.holds.forest

namespace Nodes.Represents

theorem free (h : nodes.Represents s) (hx : s.Addable p x) : nodes.Free s.children p x :=
  ⟨(h.live x).mpr hx.live, hx.root, hx.above⟩

theorem relinked (h : nodes.Represents s) (hdata : nodes.SameData nodes') {children : Ptr → List Ptr}
    (hholds : nodes'.Holds children) : nodes'.Represents { s with children := children } where
  live := by simpa [hdata.allocated] using h.live
  holds := hholds
  kind := hdata.kind.trans h.kind
  name := hdata.string.trans h.name

theorem freed (h : nodes.Represents s) (hfreed : nodes.Freed s.children x nodes') :
    nodes'.Represents (s.delete x) where
  live a := by
    rw [hfreed.allocated, h.live]
    rfl
  holds := hfreed.holds
  kind := (congrArg Nodes.kind hfreed.rest).trans h.kind
  name := (congrArg Nodes.string hfreed.rest).trans h.name

end Nodes.Represents

/-! ## Refinement -/

/-- With enough fuel the program returns `r`, and takes memory of the shape `s` to memory of the
shape `s'`. -/
def Refines {α : Type} (s : Shape Ptr) (x : ℕ → NodeProg Ptr α) (r : α) (s' : Shape Ptr) : Prop :=
  ∃ N, ∀ n ≥ N, ∀ nodes : Nodes Ptr, nodes.Represents s →
    ((x n).run nodes).Post (fun r' nodes' => r' = r ∧ nodes'.Represents s') fun _ _ => False

section Rules

variable {α β : Type} {f : ℕ → NodeProg Ptr α} {g : ℕ → α → NodeProg Ptr β} {r : α} {t : β}

theorem Refines.pure (r : α) : Refines s (fun _ => pure r : ℕ → NodeProg Ptr α) r s :=
  ⟨0, fun _ _ _ h => ⟨rfl, h⟩⟩

theorem Refines.bind (hf : Refines s f r s') (hg : Refines s' (fun n => g n r) t s'') :
    Refines s (fun n => f n >>= g n) t s'' := by
  obtain ⟨N, hN⟩ := hf
  obtain ⟨M, hM⟩ := hg
  refine ⟨max N M, fun n hn nodes h => Prog.post_bind (hN n (by omega) nodes h) ?_⟩
  rintro _ nodes' ⟨rfl, h'⟩
  exact hM n (by omega) nodes' h'

theorem Refines.of_eq {α : Type} {f g : ℕ → NodeProg Ptr α} {r : α} (hf : Refines s f r s')
    (hfg : ∀ n, g n = f n) :
    Refines s g r s' := by
  obtain rfl : g = f := funext hfg
  exact hf

theorem Refines.map {γ : Type} (hf : Refines s f r s') (g : α → γ) :
    Refines s (fun n => do let a ← f n; return g a) (g r) s' :=
  hf.bind (g := fun _ a => Pure.pure (g a)) (.pure (g r))

theorem Refines.realized (hs : s.Realized) (hf : Refines s f r s') : s'.Realized := by
  obtain ⟨nodes, h⟩ := hs
  obtain ⟨N, hN⟩ := hf
  have hpost := hN N le_rfl nodes h
  cases hrun : (f N).run nodes with
  | ok _ nodes' =>
      rw [hrun] at hpost
      exact ⟨nodes', hpost.2⟩
  | stop _ _ =>
      rw [hrun] at hpost
      exact hpost.elim

/-- Where fuel makes no difference, the memory reached does not depend on it. -/
theorem Refines.settles (hf : Refines s f r s') (hmono : Prog.FuelMono f) {nodes : Nodes Ptr}
    (h : nodes.Represents s) :
    ∃ nodes', Prog.Settles f nodes r nodes' ∧ nodes'.Represents s' := by
  obtain ⟨N, hN⟩ := hf
  have hpost := hN N le_rfl nodes h
  cases hrun : (f N).run nodes with
  | ok r' nodes' =>
      rw [hrun] at hpost
      obtain ⟨rfl, h'⟩ := hpost
      exact ⟨nodes', hmono.settles hrun, h'⟩
  | stop _ _ =>
      rw [hrun] at hpost
      exact hpost.elim

theorem Refines.run {x : NodeProg Ptr α} (hx : Refines s (fun _ => x) r s') {nodes : Nodes Ptr}
    (h : nodes.Represents s) : ∃ nodes', x.run nodes = .ok r nodes' ∧ nodes'.Represents s' := by
  obtain ⟨nodes', ⟨N, hN⟩, h'⟩ := hx.settles (fun _ => .refl x) h
  exact ⟨nodes', hN N le_rfl, h'⟩

end Rules

/-! ## Looking up -/

section Lookup

variable {name : CStr} {caseSensitive : Bool} {which : ℤ}

theorem Shape.index_mem (h : s.index p which = some y) : y ∈ s.children p := by
  simp only [Shape.index] at h
  split at h
  · cases h
  · exact List.mem_of_getElem? h

theorem Shape.member_mem (h : s.member p name caseSensitive = some y) :
    y ∈ s.children p := by
  obtain ⟨hfind, -⟩ := Option.filter_eq_some_iff.mp h
  exact List.mem_of_find?_eq_some hfind

theorem Shape.index_of_neg (h : which < 0) : s.index p which = none := if_pos h

end Lookup

/-! ## The functions -/

variable [DecidableEq Ptr]

omit [DecidableEq Ptr] in
theorem Nodes.Represents.dead (h : nodes.Represents s) (hx : ¬s.live x) :
    s.children x = [] ∧ ∀ q, x ∉ s.children q := by
  constructor
  · refine List.eq_nil_iff_forall_not_mem.mpr fun a ha => hx ?_
    rw [← h.live]
    exact (h.holds.forest.alive a x ha).2
  · intro q hq
    rw [← h.live] at hx
    exact hx (h.holds.forest.alive x q hq).1

theorem refines_create (hx : ¬s.live x) (kind : Kind) :
    Refines s (fun _ => cjsonCreate (some x) kind) (some x) (s.create x kind) := by
  refine ⟨0, fun n _ nodes h => ?_⟩
  obtain ⟨hnil, hroot⟩ := h.dead hx
  have hsame : Function.update s.children x [] = s.children := by rw [← hnil, Function.update_eq_self]
  have hnew : ∀ q, ∀ a ∈ s.children q, a ≠ x := fun q a ha heq => hroot q (heq ▸ ha)
  simp only [cjsonCreate, cjsonNewItem, Prog.run_bind, Prog.run_modify, Prog.run_pure,
    ne_eq, reduceCtorEq, not_false_eq_true, ↓reduceIte, run_deref, Function.update_self,
    Function.update_idem]
  refine ⟨rfl, fun a => ?_, ?_, by simp [h.kind, Shape.create], by simp [h.name, Shape.create]⟩
  · by_cases ha : a = x
    · simp [ha, Shape.create]
    · simp [ha, Shape.create, h.live]
  · simp only [Shape.create, hsame]
    constructor
    · refine ⟨h.holds.forest.nodup, h.holds.forest.unique, fun a q ha => ?_, h.holds.forest.ranked⟩
      obtain ⟨ha', hq⟩ := h.holds.forest.alive a q ha
      have hqx : q ≠ x := fun heq => by simp [heq, hnil] at ha
      simp [hnew q a ha, hqx, ha', hq]
    · intro q hq
      by_cases hqx : q = x
      · simp [hqx, hnil]
      · simpa [hqx] using h.holds.child q (by simpa [hqx] using hq)
    · exact fun q => (h.holds.siblings q).congr (fun a ha => by simp [hnew q a ha]) fun a ha => by
        simp [hnew q a ha]
    · intro a ha hnone
      by_cases hax : a = x
      · simp [hax]
      · simpa [hax] using h.holds.loose a (by simpa [hax] using ha) hnone

theorem refines_setString (hx : s.live x) (name : CStr) :
    Refines s (fun _ => setString (some x) (some name)) () (s.rename x name) := by
  refine ⟨0, fun n _ nodes h => ?_⟩
  rw [run_setString _ ((h.live x).mpr hx)]
  exact ⟨rfl, h.live, ⟨h.holds.forest, h.holds.child, h.holds.siblings, h.holds.loose⟩, h.kind,
    by rw [h.name]; rfl⟩

omit [DecidableEq Ptr] in
theorem refines_getArraySize (hp : s.live p) :
    Refines s (fun n => Nodes.cjsonGetArraySize n (some p))
      (Int.bmod (s.children p).length (2 ^ 32)) s := by
  refine ⟨(s.children p).length + 1, fun n hn nodes h => ?_⟩
  have hp := (h.live p).mpr hp
  have hsize :=
    getArraySizeLoop_eq (h.holds.siblings p) (fun a => h.holds.allocated_of_mem) (n := n) (by omega) 0
  simp only [cjsonGetArraySize, reduceCtorEq, ↓reduceIte, Prog.run_bind, run_load _ hp,
    h.holds.child p hp, hsize, Nat.zero_add]
  exact ⟨rfl, h⟩

theorem refines_getArrayItem (hp : s.live p) (i : ℕ) :
    Refines s (fun _ => Nodes.getArrayItem (some p) i) (s.children p)[i]? s := by
  refine ⟨0, fun n _ nodes h => ?_⟩
  rw [getArrayItem_eq h.holds ((h.live p).mpr hp)]
  exact ⟨rfl, h⟩

theorem refines_addItemToArray (hp : s.live p) (hx : s.Addable p x) :
    Refines s (fun _ => Nodes.addItemToArray (some p) (some x)) true
      (s.setChildren p (s.children p ++ [x])) := by
  refine ⟨0, fun n _ nodes h => ?_⟩
  refine (addItemToArray_spec h.holds ((h.live p).mpr hp) (h.free hx)).mono ?_ fun _ _ h => h
  rintro _ nodes' ⟨hr, hdata, hholds⟩
  exact ⟨hr, h.relinked hdata hholds⟩

omit [DecidableEq Ptr] in
theorem refines_getObjectItem (hp : s.live p) (name : CStr) (caseSensitive : Bool) :
    Refines s (fun n => Nodes.getObjectItem n (some p) (some name) caseSensitive)
      (s.member p name caseSensitive) s := by
  refine ⟨(s.children p).length + 1, fun n hn nodes h => ?_⟩
  have hfind :=
    getObjectItemLoop_eq (h.holds.siblings p) (fun a => h.holds.allocated_of_mem) name caseSensitive
      (n := n) (by omega)
  rw [h.name] at hfind
  simp only [Nodes.getObjectItem, reduceCtorEq, ↓reduceIte, Prog.run_bind,
    run_load _ ((h.live p).mpr hp), h.holds.child p ((h.live p).mpr hp), hfind, Shape.member]
  cases hfound : (s.children p).find? (stopsAt s.name name caseSensitive) with
  | none => exact ⟨rfl, h⟩
  | some a =>
      have ha := h.holds.allocated_of_mem (List.mem_of_find?_eq_some hfound)
      simp only [reduceCtorEq, ↓reduceIte, Prog.run_bind, run_load _ ha, h.name]
      cases hname : s.name a with
      | none => exact ⟨by simp [Option.filter, hname], h⟩
      | some b => exact ⟨by simp [Option.filter, hname], h⟩

theorem refines_insertItemInArray (hp : s.live p) (hx : s.Addable p x) {which : ℤ}
    (hwhich : 0 ≤ which) :
    Refines s (fun _ => cjsonInsertItemInArray (some p) which (some x)) true
      (s.setChildren p ((s.children p).take which.toNat ++ x :: (s.children p).drop which.toNat)) := by
  obtain ⟨i, rfl⟩ := Int.eq_ofNat_of_zero_le hwhich
  rw [Int.toNat_natCast]
  refine ⟨0, fun n _ nodes h => ?_⟩
  have hp' := (h.live p).mpr hp
  by_cases hi : i < (s.children p).length
  · have hget : (s.children p)[i]? = some (s.children p)[i] := List.getElem?_eq_getElem hi
    have hdrop : (s.children p).drop i = (s.children p)[i] :: (s.children p).drop (i + 1) :=
      List.drop_eq_getElem_cons hi
    have hl : s.children p = (s.children p).take i ++ (s.children p)[i] :: (s.children p).drop
        (i + 1) := by
      rw [← hdrop, List.take_append_drop]
    rw [hdrop]
    refine (insert_spec h.holds hp' (h.free hx) hl hget).mono ?_ fun _ _ h => h
    rintro _ nodes' ⟨hr, hdata, hholds⟩
    exact ⟨hr, h.relinked hdata hholds⟩
  · -- there is no child at the index
    have hneg : ¬((i : ℤ) < 0) := by omega
    rw [List.take_of_length_le (by omega), List.drop_eq_nil_of_le (by omega)]
    have hget := getArrayItem_eq h.holds hp' i
    rw [List.getElem?_eq_none (by omega)] at hget
    simp only [cjsonInsertItemInArray, hneg, ↓reduceIte, Int.toNat_natCast, Prog.run_bind, hget]
    refine (addItemToArray_spec h.holds hp' (h.free hx)).mono ?_ fun _ _ h => h
    rintro _ nodes' ⟨hr, hdata, hholds⟩
    exact ⟨hr, h.relinked hdata hholds⟩

omit [DecidableEq Ptr] in
/-- The children around a child. -/
theorem Shape.Realized.split (hs : s.Realized) (hy : y ∈ s.children p) :
    ∃ l₁ l₂, s.children p = l₁ ++ y :: l₂ ∧ y ∉ l₁ ++ l₂ := by
  obtain ⟨l₁, l₂, hl⟩ := List.append_of_mem hy
  have hnodup := hs.forest.nodup p
  rw [hl] at hnodup
  exact ⟨l₁, l₂, hl, (List.nodup_cons.mp (List.nodup_middle.mp hnodup)).1⟩

theorem refines_detach (hs : s.Realized) (hy : y ∈ s.children p) :
    Refines s (fun _ => cjsonDetachItemViaPointer (some p) (some y)) (some y) (s.detach p y) := by
  obtain ⟨l₁, l₂, hl, hmem⟩ := hs.split hy
  rw [List.mem_append, not_or] at hmem
  have herase : (s.children p).erase y = l₁ ++ l₂ := by
    rw [hl, List.erase_append_right _ hmem.1, List.erase_cons_head]
  refine ⟨0, fun n _ nodes h => ?_⟩
  have hp := (h.holds.forest.alive y p hy).2
  rw [Shape.detach, herase]
  refine (cjsonDetachItemViaPointer_spec h.holds hp hl).mono ?_ fun _ _ h => h
  rintro _ nodes' ⟨hr, hdata, hholds⟩
  exact ⟨hr, h.relinked hdata hholds⟩

theorem refines_delete (hs : s.Realized) (hx : s.live x) (hroot : ∀ q, x ∉ s.children q) :
    Refines s (fun n => cjsonDelete n (some x)) () (s.delete x) := by
  obtain ⟨N, hN⟩ := cjsonDelete_spec hs.forest x
  refine ⟨N, fun n hn nodes h => ?_⟩
  refine (hN n hn nodes h.holds ((h.live x).mpr hx) hroot).mono ?_ fun _ _ h => h
  exact fun _ _ hfreed => ⟨rfl, h.freed hfreed⟩

theorem refines_replace (hs : s.Realized) (hy : y ∈ s.children p) (hx : s.Addable p x) :
    Refines s (fun n => Nodes.cjsonReplaceItemViaPointer n (some p) (some y) (some x)) true
      (s.replace p y x) := by
  obtain ⟨l₁, l₂, hl, hmem⟩ := hs.split hy
  have hp := (hs.forest.alive y p hy).2
  have hmap : ((s.children p).map fun a => if a = y then x else a) = l₁ ++ x :: l₂ := by
    have hsame : ∀ l : List Ptr, y ∉ l → (l.map fun a => if a = y then x else a) = l := by
      intro l hl
      refine (List.map_congr_left fun a ha => if_neg ?_).trans (List.map_id l)
      exact fun heq => hl (heq ▸ ha)
    rw [List.mem_append, not_or] at hmem
    rw [hl, List.map_append, List.map_cons, if_pos rfl, hsame l₁ hmem.1, hsame l₂ hmem.2]
  obtain ⟨N, hN⟩ := cjsonReplaceItemViaPointer_spec hs.forest hp hx.live hx.root hx.above hl
  refine ⟨N, fun n hn nodes h => ?_⟩
  rw [Shape.replace, hmap]
  refine (hN n hn nodes h.holds h.live).mono ?_ fun _ _ h => h
  rintro _ nodes' ⟨hr, nodes₁, hdata, hholds, hfreed⟩
  exact ⟨hr, (h.relinked hdata hholds).freed hfreed⟩

/-! ### Functions that call others -/

theorem refines_index (hp : s.live p) {which : ℤ} (hwhich : 0 ≤ which) :
    Refines s (fun _ => Nodes.getArrayItem (some p) which.toNat) (s.index p which) s := by
  rw [Shape.index, if_neg (by omega)]
  exact refines_getArrayItem hp _

theorem Shape.Addable.rename (h : s.Addable p x) (name : CStr) : (s.rename x name).Addable p x :=
  ⟨h.live, h.root, h.above⟩

theorem Shape.Realized.rename (hs : s.Realized) (hx : s.live x) (name : CStr) :
    (s.rename x name).Realized :=
  (refines_setString hx name).realized hs

theorem Shape.Realized.detach (hs : s.Realized) (hy : y ∈ s.children p) : (s.detach p y).Realized :=
  (refines_detach hs hy).realized hs

/-- What is taken out is nobody's child. -/
theorem Shape.Realized.root_of_detach (hs : s.Realized) (hy : y ∈ s.children p) (q : Ptr) :
    y ∉ (s.detach p y).children q := by
  by_cases hq : q = p
  · subst hq
    simpa [Shape.detach, Shape.setChildren] using (hs.forest.nodup q).not_mem_erase
  · simpa [Shape.detach, Shape.setChildren, hq] using fun hyq => hq (hs.forest.unique y q p hyq hy)

theorem refines_addItemToObject (hp : s.live p) (hx : s.Addable p x) (name : CStr) :
    Refines s (fun _ => Nodes.addItemToObject (some p) (some name) (some x)) true
      ((s.rename x name).setChildren p (s.children p ++ [x])) := by
  have hne : p ≠ x := fun heq => hx.above (heq ▸ .refl)
  refine ((refines_setString hx.live name).bind (g := fun _ _ => Nodes.addItemToArray (some p) (some x))
    (refines_addItemToArray hp (hx.rename name))).of_eq fun n => ?_
  simp [Nodes.addItemToObject, hne]

/-- Taking out what a lookup found. -/
theorem refines_detachFound (hs : s.Realized) {f : ℕ → NodeProg Ptr (Option Ptr)} {found : Option Ptr}
    (hf : Refines s f found s) (hmem : ∀ y ∈ found, y ∈ s.children p) :
    Refines s (fun n => do let item ← f n; Nodes.cjsonDetachItemViaPointer (some p) item) found
      (found.elim s fun y => s.detach p y) := by
  refine hf.bind (g := fun _ item => Nodes.cjsonDetachItemViaPointer (some p) item) ?_
  cases found with
  | none => exact (Refines.pure none).of_eq fun n => by simp [Nodes.cjsonDetachItemViaPointer]
  | some y => exact refines_detach hs (hmem y rfl)

/-- Deleting what was taken out. -/
theorem refines_deleteFound (hs : s.Realized) {f : ℕ → NodeProg Ptr (Option Ptr)}
    {found : Option Ptr} (hf : Refines s f found (found.elim s fun y => s.detach p y))
    (hmem : ∀ y ∈ found, y ∈ s.children p) :
    Refines s (fun n => do let item ← f n; Nodes.cjsonDelete n item) ()
      (found.elim s fun y => (s.detach p y).delete y) := by
  refine hf.bind (g := fun n item => Nodes.cjsonDelete n item) ?_
  cases found with
  | none =>
      refine ⟨1, fun n hn nodes h => ?_⟩
      obtain ⟨n, rfl⟩ : ∃ k, n = k + 1 := ⟨n - 1, by omega⟩
      exact ⟨rfl, h⟩
  | some y =>
      have hy := hmem y rfl
      exact refines_delete (hs.detach hy) (hs.forest.alive y p hy).1 (hs.root_of_detach hy)

/-- Replacing what a lookup found. -/
theorem refines_replaceFound (hs : s.Realized) (hx : s.Addable p x) {f : ℕ → NodeProg Ptr (Option Ptr)}
    {found : Option Ptr} (hf : Refines s f found s) (hmem : ∀ y ∈ found, y ∈ s.children p) :
    Refines s
      (fun n => do let item ← f n; Nodes.cjsonReplaceItemViaPointer n (some p) item (some x))
      found.isSome (found.elim s fun y => s.replace p y x) := by
  refine hf.bind (g := fun n item => Nodes.cjsonReplaceItemViaPointer n (some p) item (some x)) ?_
  cases found with
  | none => exact (Refines.pure false).of_eq fun n => by simp [Nodes.cjsonReplaceItemViaPointer]
  | some y => exact refines_replace hs (hmem y rfl) hx

theorem refines_detachItemFromArray (hs : s.Realized) (hp : s.live p) (which : ℤ) :
    Refines s (fun _ => Nodes.cjsonDetachItemFromArray (some p) which) (s.index p which)
      ((s.index p which).elim s fun y => s.detach p y) := by
  by_cases hwhich : which < 0
  · rw [Shape.index_of_neg hwhich]
    exact (Refines.pure none).of_eq fun n => by simp [Nodes.cjsonDetachItemFromArray, hwhich]
  · refine (refines_detachFound hs (refines_index hp (by omega)) fun y hy =>
      Shape.index_mem hy).of_eq fun n => ?_
    simp [Nodes.cjsonDetachItemFromArray, hwhich]

theorem refines_detachItemFromObject (hs : s.Realized) (hp : s.live p) (name : CStr)
    (caseSensitive : Bool) :
    Refines s (fun n => Nodes.detachItemFromObject n (some p) (some name) caseSensitive)
      (s.member p name caseSensitive) ((s.member p name caseSensitive).elim s fun y => s.detach p y) :=
  refines_detachFound hs (refines_getObjectItem hp name caseSensitive) fun _ hy => Shape.member_mem hy

theorem refines_cjsonGetArrayItem (hp : s.live p) (which : ℤ) :
    Refines s (fun _ => Nodes.cjsonGetArrayItem (some p) which) (s.index p which) s := by
  by_cases hwhich : which < 0
  · rw [Shape.index_of_neg hwhich]
    exact (Refines.pure none).of_eq fun n => by simp [Nodes.cjsonGetArrayItem, hwhich]
  · exact (refines_index hp (by omega)).of_eq fun n => by simp [Nodes.cjsonGetArrayItem, hwhich]

theorem refines_replaceItemInArray (hs : s.Realized) (hp : s.live p) (hx : s.Addable p x) (which : ℤ) :
    Refines s (fun n => Nodes.cjsonReplaceItemInArray n (some p) which (some x))
      (s.index p which).isSome
      ((s.index p which).elim s fun y => s.replace p y x) := by
  by_cases hwhich : which < 0
  · rw [Shape.index_of_neg hwhich]
    exact (Refines.pure false).of_eq fun n => by simp [Nodes.cjsonReplaceItemInArray, hwhich]
  · refine (refines_replaceFound hs hx (refines_index hp (by omega)) fun y hy =>
      Shape.index_mem hy).of_eq fun n => ?_
    simp [Nodes.cjsonReplaceItemInArray, hwhich]

theorem Shape.member_rename (hx : s.Addable p x) (name name' : CStr) (caseSensitive : Bool) :
    (s.rename x name').member p name caseSensitive = s.member p name caseSensitive := by
  have hname : ∀ a ∈ s.children p, Function.update s.name x (some name') a = s.name a := by
    intro a ha
    have hax : a ≠ x := fun heq => hx.root p (heq ▸ ha)
    simp [hax]
  have hstop : ∀ a ∈ s.children p,
      stopsAt (Function.update s.name x (some name')) name caseSensitive a =
      stopsAt s.name name caseSensitive a := by
    intro a ha
    simp only [stopsAt, hname a ha]
  simp only [Shape.member, Shape.rename, List.find?_congr hstop]
  cases hfound : (s.children p).find? (stopsAt s.name name caseSensitive) with
  | none => rfl
  | some a => simp [Option.filter, hname a (List.mem_of_find?_eq_some hfound)]

theorem refines_replaceItemInObject (hs : s.Realized) (hp : s.live p) (hx : s.Addable p x) (name : CStr)
    (caseSensitive : Bool) :
    Refines s (fun n => Nodes.replaceItemInObject n (some p) (some name) (some x) caseSensitive)
      (s.member p name caseSensitive).isSome
      ((s.member p name caseSensitive).elim (s.rename x name) fun y =>
        (s.rename x name).replace p y x) := by
  have hreplace := refines_replaceFound (hs.rename hx.live name) (hx.rename name)
    (refines_getObjectItem (s := s.rename x name) hp name caseSensitive) fun y hy => Shape.member_mem hy
  rw [Shape.member_rename hx] at hreplace
  refine ((refines_setString hx.live name).bind (g := fun n _ => do
    let item ← Nodes.getObjectItem n (some p) (some name) caseSensitive
    Nodes.cjsonReplaceItemViaPointer n (some p) item (some x)) hreplace).of_eq fun n => ?_
  simp [Nodes.replaceItemInObject]

theorem refines_deleteItemFromArray (hs : s.Realized) (hp : s.live p) (which : ℤ) :
    Refines s (fun n => Nodes.cjsonDeleteItemFromArray n (some p) which) ()
      ((s.index p which).elim s fun y => (s.detach p y).delete y) :=
  refines_deleteFound hs (refines_detachItemFromArray hs hp which) fun _ hy => Shape.index_mem hy

theorem refines_deleteItemFromObject (hs : s.Realized) (hp : s.live p) (name : CStr)
    (caseSensitive : Bool) :
    Refines s (fun n => Nodes.deleteItemFromObject n (some p) (some name) caseSensitive) ()
      ((s.member p name caseSensitive).elim s fun y => (s.detach p y).delete y) :=
  refines_deleteFound hs (refines_detachItemFromObject hs hp name caseSensitive) fun _ hy =>
    Shape.member_mem hy

/-! ## Runs -/

theorem refines_exec (hs : s.Realized) (c : Command Ptr) (hc : c.Legal s) :
    Refines s (fun n => c.exec n) (c.answer s) (c.apply s) := by
  cases c with
  | create x kind => exact (refines_create hc kind).map Answer.node
  | getArraySize p => exact (refines_getArraySize hc).map Answer.int
  | getArrayItem p which => exact (refines_cjsonGetArrayItem hc which).map Answer.node
  | getObjectItem p name caseSensitive =>
      exact (refines_getObjectItem hc name caseSensitive).map Answer.node
  | addItemToArray p x => exact (refines_addItemToArray hc.1 hc.2).map Answer.bool
  | addItemToObject p name x => exact (refines_addItemToObject hc.1 hc.2 name).map Answer.bool
  | insertItemInArray p which x =>
      by_cases hwhich : which < 0
      · simp only [Command.apply, hwhich, ↓reduceIte, Command.answer, not_le.mpr hwhich, decide_false]
        refine ((Refines.pure false).of_eq fun n => ?_).map Answer.bool
        simp [cjsonInsertItemInArray, hwhich]
      · simp only [Command.apply, hwhich, ↓reduceIte, Command.answer, not_lt.mp hwhich, decide_true]
        exact (refines_insertItemInArray hc.1 hc.2 (not_lt.mp hwhich)).map Answer.bool
  | detachItemViaPointer p y => exact (refines_detach hs hc).map Answer.node
  | detachItemFromArray p which => exact (refines_detachItemFromArray hs hc which).map Answer.node
  | detachItemFromObject p name caseSensitive =>
      exact (refines_detachItemFromObject hs hc name caseSensitive).map Answer.node
  | replaceItemViaPointer p y x => exact (refines_replace hs hc.1 hc.2).map Answer.bool
  | replaceItemInArray p which x =>
      exact (refines_replaceItemInArray hs hc.1 hc.2 which).map Answer.bool
  | replaceItemInObject p name x caseSensitive =>
      exact (refines_replaceItemInObject hs hc.1 hc.2 name caseSensitive).map Answer.bool
  | deleteItemFromArray p which =>
      exact (refines_deleteItemFromArray hs hc which).map fun _ => Answer.nothing
  | deleteItemFromObject p name caseSensitive =>
      exact (refines_deleteItemFromObject hs hc name caseSensitive).map fun _ => Answer.nothing
  | delete x => exact (refines_delete hs hc.1 hc.2).map fun _ => Answer.nothing

/-- A run of calls that are each made on nodes they may be made on. -/
theorem refines_collect (hs : s.Realized) (cs : List (Command Ptr)) (hcs : Command.AllLegal s cs) :
    Refines s (fun n => Prog.collect (Command.exec n) cs) (Command.answers s cs)
      (Command.applyAll s cs) := by
  induction cs generalizing s with
  | nil => exact Refines.pure []
  | cons c cs ih =>
      have hexec := refines_exec hs c hcs.1
      refine hexec.bind
        (g := fun n b => do let bs ← Prog.collect (Command.exec n) cs; return b :: bs) ?_
      exact (ih (hexec.realized hs) hcs.2).map _

end CppJson
