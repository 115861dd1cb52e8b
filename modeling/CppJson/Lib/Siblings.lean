import Mathlib.Tactic.Common
import Mathlib.Data.List.Basic

/-!
# Doubly linked lists

The nodes of a list are linked by `next` and `prev`, and `prev` of the first node is the last node,
so that the end is found without a walk. The lemmas say which links may change when a node is put
in, taken out or exchanged.
-/

namespace CppJson

variable {α : Type}

section Segment

variable (next prev : α → Option α)

/-- The nodes of `l` are linked to each other, the first one back to `before` and the last one on to
`after`. -/
def Segment : Option α → List α → Option α → Prop
  | _, [], _ => True
  | before, a :: l, after => prev a = before ∧ next a = l.head?.or after ∧ Segment (some a) l after

/-- A whole list. -/
def Siblings (l : List α) : Prop := Segment next prev l.getLast? l none

end Segment

variable {next prev next' prev' : α → Option α} {before after : Option α} {l l₁ l₂ : List α} {x y : α}

theorem segment_append :
    Segment next prev before (l₁ ++ l₂) after ↔
      Segment next prev before l₁ (l₂.head?.or after) ∧
        Segment next prev (l₁.getLast?.or before) l₂ after := by
  induction l₁ generalizing before with
  | nil => simp [Segment]
  | cons a l₁ ih =>
      simp only [List.cons_append, Segment, ih, List.head?_append, Option.or_assoc, and_assoc]
      cases l₁ with
      | nil => simp
      | cons b l₁ =>
          obtain ⟨z, hz⟩ : ∃ z, (b :: l₁).getLast? = some z :=
            ⟨_, List.getLast?_eq_some_getLast (by simp)⟩
          simp [List.getLast?_cons_cons, hz]

/-- A segment is moved between other nodes by changing the links at its ends. -/
theorem Segment.move {before' after' : Option α} (h : Segment next prev before l after)
    (hnodup : l.Nodup) (hnext : ∀ a ∈ l, some a ≠ l.getLast? → next' a = next a)
    (hprev : ∀ a ∈ l, some a ≠ l.head? → prev' a = prev a)
    (hlast : ∀ a ∈ l.getLast?, next' a = after') (hfirst : ∀ a ∈ l.head?, prev' a = before') :
    Segment next' prev' before' l after' := by
  induction l generalizing before before' with
  | nil => trivial
  | cons a l ih =>
      obtain ⟨-, hnext_a, h⟩ := h
      obtain ⟨hmem, hnodup⟩ := List.nodup_cons.mp hnodup
      cases l with
      | nil => exact ⟨hfirst a rfl, hlast a rfl, trivial⟩
      | cons b l =>
          have hlast_ne : some a ≠ (a :: b :: l).getLast? := by
            rw [List.getLast?_cons_cons]
            exact fun heq => hmem (List.mem_of_getLast? heq.symm)
          have hne : b ≠ a := fun heq => hmem (heq ▸ List.mem_cons_self)
          refine ⟨hfirst a rfl, ?_, ih h hnodup ?_ ?_ ?_ ?_⟩
          · rw [hnext a List.mem_cons_self hlast_ne, hnext_a]
            rfl
          · exact fun c hc hlast' =>
              hnext c (List.mem_cons_of_mem _ hc) (by rwa [List.getLast?_cons_cons])
          · intro c hc _
            refine hprev c (List.mem_cons_of_mem _ hc) fun heq => hmem ?_
            obtain rfl : c = a := by simpa using heq
            exact hc
          · simpa [List.getLast?_cons_cons] using hlast
          · intro c hc
            obtain rfl : b = c := by simpa using hc
            rw [hprev b (by simp) (by simpa using hne)]
            exact h.1

theorem Segment.congr (h : Segment next prev before l after) (hnext : ∀ a ∈ l, next' a = next a)
    (hprev : ∀ a ∈ l, prev' a = prev a) : Segment next' prev' before l after := by
  induction l generalizing before with
  | nil => trivial
  | cons a l ih =>
      rw [List.forall_mem_cons] at hnext hprev
      obtain ⟨hprev_a, hnext_a, h⟩ := h
      exact ⟨hprev.1.trans hprev_a, hnext.1.trans hnext_a, ih h hnext.2 hprev.2⟩

theorem Segment.first_eq (h : Segment next prev before l after) : ∀ a ∈ l.head?, prev a = before := by
  cases l with
  | nil => simp
  | cons b l => simpa using h.1

theorem Segment.last_eq (h : Segment next prev before l after) : ∀ a ∈ l.getLast?, next a = after := by
  intro a ha
  obtain ⟨k, rfl⟩ := List.getLast?_eq_some_iff.mp ha
  simpa [Segment] using (segment_append.mp h).2.2.1

namespace Siblings

theorem nil : Siblings next prev [] := trivial

theorem singleton (hnext : next x = none) (hprev : prev x = some x) : Siblings next prev [x] :=
  ⟨hprev, hnext, trivial⟩

theorem congr (h : Siblings next prev l) (hnext : ∀ a ∈ l, next' a = next a)
    (hprev : ∀ a ∈ l, prev' a = prev a) :
    Siblings next' prev' l :=
  Segment.congr h hnext hprev

theorem append_iff :
    Siblings next prev (l₁ ++ l₂) ↔
      Segment next prev (l₁ ++ l₂).getLast? l₁ l₂.head? ∧
        Segment next prev (l₁.getLast?.or (l₁ ++ l₂).getLast?) l₂ none := by
  rw [Siblings, segment_append, Option.or_none]

theorem next_eq (h : Siblings next prev (l₁ ++ y :: l₂)) : next y = l₂.head? := by
  simpa [Segment] using (append_iff.mp h).2.2.1

theorem prev_eq (h : Siblings next prev (l₁ ++ y :: l₂)) :
    prev y = l₁.getLast?.or (l₁ ++ y :: l₂).getLast? :=
  (append_iff.mp h).2.1

theorem prev_head (h : Siblings next prev (y :: l₂)) : prev y = (y :: l₂).getLast? := h.1

/-! ### Changes -/

/-- A node at the end. -/
theorem snoc (h : Siblings next prev l) (hnodup : (l ++ [x]).Nodup) (hne : l ≠ []) (hx : next' x = none)
    (hx' : prev' x = l.getLast?) (hlast : ∀ a ∈ l.getLast?, next' a = some x)
    (hfirst : ∀ a ∈ l.head?, prev' a = some x) (hnext : ∀ a ∈ l, some a ≠ l.getLast? → next' a = next a)
    (hprev : ∀ a ∈ l, some a ≠ l.head? → prev' a = prev a) : Siblings next' prev' (l ++ [x]) := by
  refine append_iff.mpr ⟨?_, ?_, by simpa using hx, trivial⟩
  · exact Segment.move h (List.nodup_append.mp hnodup).1 hnext hprev hlast (by simpa using hfirst)
  · rw [hx', Option.or_of_isSome]
    simpa using hne

/-- A node in front of `y`. -/
theorem insert (h : Siblings next prev (l₁ ++ y :: l₂)) (hnodup : (l₁ ++ y :: l₂).Nodup)
    (hx : next' x = some y) (hx' : prev' x = prev y) (hy : prev' y = some x)
    (hlast : ∀ a ∈ l₁.getLast?, next' a = some x)
    (hnext : ∀ a ∈ l₁ ++ y :: l₂, some a ≠ l₁.getLast? → next' a = next a)
    (hprev : ∀ a ∈ l₁ ++ y :: l₂, a ≠ y → prev' a = prev a) :
    Siblings next' prev' (l₁ ++ x :: y :: l₂) := by
  have hprev_y := h.prev_eq
  have hdisj := List.nodup_append.mp hnodup
  obtain ⟨h₁, h₂⟩ := append_iff.mp h
  have hgetLast : (l₁ ++ x :: y :: l₂).getLast? = (l₁ ++ y :: l₂).getLast? := by simp
  rw [append_iff, hgetLast]
  refine ⟨?_, hx'.trans hprev_y, hx, ?_⟩
  · -- in front of the new node only the last link forward changes
    have hprev₁ : ∀ a ∈ l₁, prev' a = prev a := fun a ha =>
      hprev a (List.mem_append_left _ ha) (hdisj.2.2 a ha y List.mem_cons_self)
    refine h₁.move hdisj.1 (fun a ha => hnext a (List.mem_append_left _ ha))
      (fun a ha _ => hprev₁ a ha) hlast ?_
    exact fun a ha => (hprev₁ a (List.mem_of_mem_head? ha)).trans (h₁.first_eq a ha)
  · have hnext₂ : ∀ a ∈ y :: l₂, next' a = next a := fun a ha =>
      hnext a (List.mem_append_right _ ha) fun heq =>
        hdisj.2.2 a (List.mem_of_getLast? heq.symm) a ha rfl
    refine h₂.move hdisj.2.1 (fun a ha _ => hnext₂ a ha) ?_ ?_ (by simpa using hy)
    · exact fun a ha hne => hprev a (List.mem_append_right _ ha) (by simpa using hne)
    · exact fun a ha => (hnext₂ a (List.mem_of_getLast? ha)).trans (h₂.last_eq a ha)

/-- The node `y` is taken out. -/
theorem remove (h : Siblings next prev (l₁ ++ y :: l₂)) (hnodup : (l₁ ++ y :: l₂).Nodup)
    (hlast : ∀ a ∈ l₁.getLast?, next' a = l₂.head?) (hfirst : ∀ a ∈ l₂.head?, prev' a = prev y)
    (hwrap : l₂ = [] → ∀ a ∈ l₁.head?, prev' a = prev y)
    (hnext : ∀ a ∈ l₁ ++ l₂, some a ≠ l₁.getLast? → next' a = next a)
    (hprev : ∀ a ∈ l₁ ++ l₂, some a ≠ l₂.head? → (l₂ = [] → some a ≠ l₁.head?) → prev' a = prev a) :
    Siblings next' prev' (l₁ ++ l₂) := by
  have hprev_y := h.prev_eq
  have hdisj := List.nodup_append.mp hnodup
  obtain ⟨h₁, h₂⟩ := append_iff.mp h
  have hnodup₂ := (List.nodup_cons.mp hdisj.2.1).2
  rw [append_iff]
  cases l₂ with
  | nil =>
      simp only [List.append_nil, List.head?_nil, List.getLast?_append, List.getLast?_singleton] at *
      refine ⟨h₁.move hdisj.1 hnext (fun a ha hne => hprev a ha (by simp) fun _ => hne)
        hlast fun a ha => ?_, trivial⟩
      rw [hwrap trivial a ha, hprev_y]
      cases l₁ with
      | nil => simp at ha
      | cons b l₁ => simp [List.getLast?_eq_some_getLast]
  | cons b l₂ =>
      have hgetLast : (l₁ ++ b :: l₂).getLast? = (l₁ ++ y :: b :: l₂).getLast? := by
        simp [List.getLast?_cons_cons]
      have hprev₁ : ∀ a ∈ l₁, prev' a = prev a := fun a ha =>
        hprev a (List.mem_append_left _ ha)
          (by simpa using hdisj.2.2 a ha b (by simp)) (by simp)
      have hnext₂ : ∀ a ∈ b :: l₂, next' a = next a := fun a ha =>
        hnext a (List.mem_append_right _ ha) fun heq =>
          hdisj.2.2 a (List.mem_of_getLast? heq.symm) a (List.mem_cons_of_mem _ ha) rfl
      rw [hgetLast]
      refine ⟨h₁.move hdisj.1 (fun a ha => hnext a (List.mem_append_left _ ha))
        (fun a ha _ => hprev₁ a ha) hlast ?_, h₂.2.2.move hnodup₂ (fun a ha _ => hnext₂ a ha) ?_ ?_ ?_⟩
      · exact fun a ha => (hprev₁ a (List.mem_of_mem_head? ha)).trans (h₁.first_eq a ha)
      · exact fun a ha hne => hprev a (List.mem_append_right _ ha) hne (by simp)
      · exact fun a ha => (hnext₂ a (List.mem_of_getLast? ha)).trans (h₂.2.2.last_eq a ha)
      · exact fun a ha => (hfirst a ha).trans hprev_y

/-- The node `y` gives its place to `x`. -/
theorem replace (h : Siblings next prev (l₁ ++ y :: l₂)) (hnodup : (l₁ ++ y :: l₂).Nodup)
    (hx : next' x = next y) (hx' : prev' x = if l₁ ++ l₂ = [] then some x else prev y)
    (hlast : ∀ a ∈ l₁.getLast?, next' a = some x) (hfirst : ∀ a ∈ l₂.head?, prev' a = some x)
    (hwrap : l₂ = [] → ∀ a ∈ l₁.head?, prev' a = some x)
    (hnext : ∀ a ∈ l₁ ++ l₂, some a ≠ l₁.getLast? → next' a = next a)
    (hprev : ∀ a ∈ l₁ ++ l₂, some a ≠ l₂.head? → (l₂ = [] → some a ≠ l₁.head?) → prev' a = prev a) :
    Siblings next' prev' (l₁ ++ x :: l₂) := by
  have hprev_y := h.prev_eq
  have hnext_y := h.next_eq
  have hdisj := List.nodup_append.mp hnodup
  obtain ⟨h₁, h₂⟩ := append_iff.mp h
  have hnodup₂ := (List.nodup_cons.mp hdisj.2.1).2
  have hnext₂ : ∀ a ∈ l₂, next' a = next a := fun a ha =>
    hnext a (List.mem_append_right _ ha) fun heq =>
      hdisj.2.2 a (List.mem_of_getLast? heq.symm) a (List.mem_cons_of_mem _ ha) rfl
  refine append_iff.mpr ⟨?_, ?_, ?_, ?_⟩
  · refine h₁.move hdisj.1 (fun a ha => hnext a (List.mem_append_left _ ha)) (fun a ha hne => ?_)
      hlast fun a ha => ?_
    · refine hprev a (List.mem_append_left _ ha) (fun heq => ?_) fun _ => hne
      exact hdisj.2.2 a ha a (List.mem_cons_of_mem _ (List.mem_of_mem_head? heq.symm)) rfl
    · cases l₂ with
      | nil => simpa using hwrap rfl a ha
      | cons b l₂ =>
          have hmem := List.mem_of_mem_head? ha
          rw [hprev a (List.mem_append_left _ hmem) ?_ (by simp), h₁.first_eq a ha]
          · simp [List.getLast?_cons_cons]
          · simpa using hdisj.2.2 a hmem b (by simp)
  · rw [hx']
    cases l₁ with
    | nil =>
        cases l₂ with
        | nil => simp
        | cons b l₂ => simpa [List.getLast?_cons_cons] using hprev_y
    | cons b l₁ =>
        rw [hprev_y]
        simp [List.getLast?_eq_some_getLast]
  · rw [hx, hnext_y, Option.or_none]
  · refine h₂.2.2.move hnodup₂ (fun a ha _ => hnext₂ a ha) ?_ ?_ hfirst
    · refine fun a ha hne => hprev a (List.mem_append_right _ ha) hne fun hnil => ?_
      simp [hnil] at ha
    · exact fun a ha => (hnext₂ a (List.mem_of_getLast? ha)).trans (h₂.2.2.last_eq a ha)

end Siblings

end CppJson
