import Mathlib.Data.List.Nodup
import Mathlib.Data.Set.Card
import CppJson.Lib.Scan

/-!
# A table of slots

A table with a fixed number of slots stands for a partial function. `key a` is the key of a slot
that is in use, and `none` for a slot that is free.
-/

namespace CppJson

variable {α κ : Type} {key : α → Option κ} {l l₁ l₂ : List α} {a b : α} {k k' : κ}

/-- No key is in two slots. -/
def SlotKeys (key : α → Option κ) (l : List α) : Prop := (l.filterMap key).Nodup

/-- A slot that may be in use for `k` only is given to `b`, which may have no other key either. -/
structure Replaces (key : α → Option κ) (k : κ) (l₁ : List α) (a b : α) (l₂ : List α) : Prop where
  keys : SlotKeys key (l₁ ++ a :: l₂)
  old : ∀ k', key a = some k' → k' = k
  new : ∀ k', key b = some k' → k' = k
  other : key a = none → k ∉ (l₁ ++ l₂).filterMap key

namespace Replaces

theorem notMem (h : Replaces key k l₁ a b l₂) : k ∉ (l₁ ++ l₂).filterMap key := by
  have hkeys := h.keys
  rw [SlotKeys, List.filterMap_append, List.filterMap_cons] at hkeys
  cases ha : key a with
  | none => exact h.other ha
  | some k' =>
      cases h.old k' ha
      rw [ha] at hkeys
      rw [List.filterMap_append]
      exact (List.nodup_middle.mp hkeys).notMem

theorem keys_replaced (h : Replaces key k l₁ a b l₂) : SlotKeys key (l₁ ++ b :: l₂) := by
  have hkeys := h.keys
  have hnotMem := h.notMem
  rw [SlotKeys, List.filterMap_append, List.filterMap_cons] at hkeys ⊢
  rw [List.filterMap_append] at hnotMem
  have hrest : (l₁.filterMap key ++ l₂.filterMap key).Nodup := by
    cases ha : key a with
    | none => rwa [ha] at hkeys
    | some k' =>
        rw [ha] at hkeys
        exact (List.nodup_middle.mp hkeys).of_cons
  cases hb : key b with
  | none => exact hrest
  | some k' =>
      cases h.new k' hb
      exact List.nodup_middle.mpr (List.nodup_cons.mpr ⟨hnotMem, hrest⟩)

end Replaces

/-- The slot with the key `k`. -/
def slotOf [DecidableEq κ] (key : α → Option κ) (k : κ) (l : List α) : Option α :=
  l.find? fun a => key a = some k

variable [DecidableEq κ]

theorem slotOf_eq_none : slotOf key k l = none ↔ k ∉ l.filterMap key := by
  simp [slotOf, List.find?_eq_none, List.mem_filterMap]

theorem slotOf_append : slotOf key k (l₁ ++ l₂) = (slotOf key k l₁).or (slotOf key k l₂) :=
  List.find?_append

theorem slotOf_cons : slotOf key k (a :: l) = if key a = some k then some a else slotOf key k l := by
  rw [slotOf, List.find?_cons, slotOf]
  split_ifs with h <;> simp [h]

namespace Replaces

theorem slotOf_self (h : Replaces key k l₁ a b l₂) :
    slotOf key k (l₁ ++ b :: l₂) = if key b = some k then some b else none := by
  have hnotMem := h.notMem
  rw [List.filterMap_append, List.mem_append, not_or] at hnotMem
  rw [slotOf_append, slotOf_eq_none.mpr hnotMem.1, Option.none_or, slotOf_cons,
    slotOf_eq_none.mpr hnotMem.2]

theorem slotOf_ne (h : Replaces key k l₁ a b l₂) (hne : k' ≠ k) :
    slotOf key k' (l₁ ++ b :: l₂) = slotOf key k' (l₁ ++ a :: l₂) := by
  rw [slotOf_append, slotOf_append, slotOf_cons, slotOf_cons, if_neg fun hb => hne (h.new k' hb),
    if_neg fun ha => hne (h.old k' ha)]

end Replaces

/-- There is a free slot exactly if the table has fewer keys than slots. -/
theorem exists_free_iff (h : SlotKeys key l) :
    (∃ a ∈ l, key a = none) ↔ {k | slotOf key k l ≠ none}.ncard < l.length := by
  have hset : {k | slotOf key k l ≠ none} = ((l.filterMap key).toFinset : Set κ) := by
    ext k
    simp only [Set.mem_ofPred_eq, Ne, slotOf_eq_none, not_not, List.coe_toFinset]
  rw [hset, Set.ncard_coe_finset, List.toFinset_card_of_nodup h]
  constructor
  · rintro ⟨a, ha, hnone⟩
    obtain ⟨l₁, l₂, rfl⟩ := List.append_of_mem ha
    have h₁ := List.length_filterMap_le key l₁
    have h₂ := List.length_filterMap_le key l₂
    rw [List.filterMap_append, List.filterMap_cons_none hnone, List.length_append,
      List.length_append, List.length_cons]
    omega
  · intro hlt
    by_contra hno
    push Not at hno
    have hall : (l.filterMap key).length = l.length := by
      clear hlt h hset
      induction l with
      | nil => rfl
      | cons a l ih =>
          obtain ⟨k, hk⟩ := Option.ne_none_iff_exists'.mp (hno a List.mem_cons_self)
          rw [List.filterMap_cons_some hk, List.length_cons, List.length_cons,
            ih fun b hb => hno b (List.mem_cons_of_mem a hb)]
    omega

/-- The slot that a loop over the table stops at. -/
theorem exists_of_findIdx? {p : α → Bool} {i : ℕ} (h : l.findIdx? p = some i) :
    ∃ l₁ a l₂, l = l₁ ++ a :: l₂ ∧ p a ∧ l[i]? = some a ∧ (∀ b, l.set i b = l₁ ++ b :: l₂) ∧
      ∀ f, l.modify i f = l₁ ++ f a :: l₂ := by
  obtain ⟨hi, hp, -⟩ := List.findIdx?_eq_some_iff_getElem.mp h
  refine ⟨l.take i, l[i], l.drop (i + 1), ?_, hp, List.getElem?_eq_getElem hi, ?_, ?_⟩
  · rw [← List.drop_eq_getElem_cons hi, List.take_append_drop]
  · exact fun b => List.set_eq_take_append_cons_drop.trans (if_pos hi)
  · exact fun f => by rw [List.modify_eq_take_cons_drop hi]

end CppJson
