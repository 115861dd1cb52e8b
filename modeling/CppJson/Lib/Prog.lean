import Mathlib.Tactic.Common

/-!
# Programs over a state

A program reads and changes a state of type `σ` and returns a value, or stops for a reason of type
`ε` and never returns. The state reached is kept in both cases.
-/

namespace CppJson

inductive Outcome (ε σ α : Type) where
  | ok (value : α) (state : σ)
  | stop (reason : ε) (state : σ)

structure Prog (ε σ α : Type) where
  run : σ → Outcome ε σ α

variable {ε σ τ α β : Type}

namespace Outcome

def state : Outcome ε σ α → σ
  | ok _ s => s
  | stop _ s => s

@[simp] theorem state_ok (a : α) (s : σ) : (ok a s : Outcome ε σ α).state = s := rfl
@[simp] theorem state_stop (e : ε) (s : σ) : (stop e s : Outcome ε σ α).state = s := rfl

def mapState (f : σ → τ) : Outcome ε σ α → Outcome ε τ α
  | ok a s => ok a (f s)
  | stop e s => stop e (f s)

/-- `Q` holds if the program returned, `E` if it stopped. -/
def Post (Q : α → σ → Prop) (E : ε → σ → Prop) : Outcome ε σ α → Prop
  | ok a s => Q a s
  | stop e s => E e s

theorem Post.mono {Q Q' : α → σ → Prop} {E E' : ε → σ → Prop} {o : Outcome ε σ α} (h : o.Post Q E)
    (hQ : ∀ a s, Q a s → Q' a s) (hE : ∀ e s, E e s → E' e s) : o.Post Q' E' := by
  cases o with
  | ok a s => exact hQ a s h
  | stop e s => exact hE e s h

theorem Post.state {Q : σ → Prop} {o : Outcome ε σ α} (h : o.Post (fun _ => Q) fun _ => Q) :
    Q o.state := by
  cases o with
  | ok a s => exact h
  | stop e s => exact h

end Outcome

namespace Prog

def andThen (x : Prog ε σ α) (f : α → Prog ε σ β) : Prog ε σ β where
  run s :=
    match x.run s with
    | .ok a s' => (f a).run s'
    | .stop e s' => .stop e s'

instance : Monad (Prog ε σ) where
  pure a := ⟨fun s => .ok a s⟩
  bind := andThen

def get : Prog ε σ σ := ⟨fun s => .ok s s⟩

def modify (f : σ → σ) : Prog ε σ Unit := ⟨fun s => .ok () (f s)⟩

def stop (e : ε) : Prog ε σ α := ⟨fun s => .stop e s⟩

@[simp] theorem run_pure (a : α) (s : σ) : (pure a : Prog ε σ α).run s = .ok a s := rfl

theorem run_bind (x : Prog ε σ α) (f : α → Prog ε σ β) (s : σ) :
    (x >>= f).run s =
      match x.run s with
      | .ok a s' => (f a).run s'
      | .stop e s' => .stop e s' := rfl

@[simp] theorem run_get (s : σ) : (get : Prog ε σ σ).run s = .ok s s := rfl
@[simp] theorem run_modify (f : σ → σ) (s : σ) : (modify f : Prog ε σ Unit).run s = .ok () (f s) := rfl
@[simp] theorem run_stop (e : ε) (s : σ) : (stop e : Prog ε σ α).run s = .stop e s := rfl

@[simp] theorem run_get_bind (f : σ → Prog ε σ β) (s : σ) : (get >>= f).run s = (f s).run s := rfl

@[simp] theorem run_modify_bind (g : σ → σ) (f : Unit → Prog ε σ β) (s : σ) :
    (modify g >>= f).run s = (f ()).run (g s) := rfl

theorem run_bind_ok {x : Prog ε σ α} {f : α → Prog ε σ β} {s s' : σ} {a : α} (h : x.run s = .ok a s') :
    (x >>= f).run s = (f a).run s' := by simp [run_bind, h]

theorem run_bind_stop {x : Prog ε σ α} {f : α → Prog ε σ β} {s s' : σ} {e : ε}
    (h : x.run s = .stop e s') :
    (x >>= f).run s = .stop e s' := by simp [run_bind, h]

/-- A sequence that returns has returned at every point in between. -/
theorem run_bind_eq_ok {x : Prog ε σ α} {f : α → Prog ε σ β} {s t : σ} {b : β} :
    (x >>= f).run s = .ok b t ↔ ∃ a s', x.run s = .ok a s' ∧ (f a).run s' = .ok b t := by
  cases h : x.run s <;> simp [run_bind, h]

/-! ## Running a list of inputs -/

/-- One step for each input, in order. -/
def runAll (step : α → Prog ε σ Unit) : List α → Prog ε σ Unit
  | [] => pure ()
  | a :: as => do
      step a
      runAll step as

variable {step : α → Prog ε σ Unit}

@[simp] theorem run_runAll_nil (s : σ) : (runAll step []).run s = .ok () s := rfl

theorem runAll_cons (a : α) (as : List α) : runAll step (a :: as) = (do step a; runAll step as) := rfl

theorem run_runAll_append (as bs : List α) (s : σ) :
    (runAll step (as ++ bs)).run s = (do runAll step as; runAll step bs : Prog ε σ Unit).run s := by
  induction as generalizing s with
  | nil => rfl
  | cons a as ih =>
      simp only [List.cons_append, runAll_cons, run_bind]
      cases (step a).run s with
      | stop e s' => rfl
      | ok u s' => simp only [ih, run_bind]

/-- The points of a run with one more input. -/
theorem forall_point_snoc {P : List α → α → Prop} {as : List α} {a : α} :
    (∀ pre x post, as ++ [a] = pre ++ x :: post → P pre x) ↔
      (∀ pre x post, as = pre ++ x :: post → P pre x) ∧ P as a := by
  constructor
  · intro h
    exact ⟨fun pre x post heq => h pre x (post ++ [a]) (by simp [heq]), h as a [] rfl⟩
  · rintro ⟨h, ha⟩ pre x post heq
    rcases post.eq_nil_or_concat with rfl | ⟨post, b, rfl⟩
    · obtain ⟨rfl, hx⟩ := List.append_inj' heq rfl
      obtain rfl : a = x := by simpa using hx
      exact ha
    · have heq' : as ++ [a] = (pre ++ x :: post) ++ [b] := by simpa using heq
      exact h pre x post (List.append_inj_left' heq' rfl)

/-- A run that stops has stopped in one of its steps. -/
theorem runAll_eq_stop {as : List α} {s t : σ} {e : ε} (h : (runAll step as).run s = .stop e t) :
    ∃ pre a post s', as = pre ++ a :: post ∧ (runAll step pre).run s = .ok () s' ∧
      (step a).run s' = .stop e t := by
  induction as generalizing s with
  | nil => cases h
  | cons a as ih =>
      rw [runAll_cons, run_bind] at h
      cases ha : (step a).run s with
      | stop e' t' =>
          simp only [ha] at h
          exact ⟨[], a, as, s, rfl, rfl, ha.trans h⟩
      | ok u s' =>
          simp only [ha] at h
          obtain ⟨pre, b, post, s'', rfl, hpre, hb⟩ := ih h
          exact ⟨a :: pre, b, post, s'', rfl, by rw [runAll_cons, run_bind_ok ha, hpre], hb⟩

/-- A run returns exactly when its step returns at every point that is reached. -/
theorem runAll_returns_iff {as : List α} {s : σ} :
    (∃ t, (runAll step as).run s = .ok () t) ↔
      ∀ pre a post, as = pre ++ a :: post → ∀ s', (runAll step pre).run s = .ok () s' →
        ∃ t, (step a).run s' = .ok () t := by
  constructor
  · rintro ⟨t, ht⟩ pre a post rfl s' hs'
    rw [run_runAll_append, run_bind_ok hs', runAll_cons, run_bind_eq_ok] at ht
    obtain ⟨_, t', ha, -⟩ := ht
    exact ⟨t', ha⟩
  · intro h
    cases hrun : (runAll step as).run s with
    | ok _ t => exact ⟨t, rfl⟩
    | stop e t =>
        obtain ⟨pre, a, post, s', has, hpre, ha⟩ := runAll_eq_stop hrun
        obtain ⟨t', ht'⟩ := h pre a post has s' hpre
        rw [ha] at ht'
        cases ht'

/-- One step for each input, in order, with what the steps return. -/
def collect (step : α → Prog ε σ β) : List α → Prog ε σ (List β)
  | [] => return []
  | a :: as => do
      let b ← step a
      let bs ← collect step as
      return b :: bs

/-! ## Running up to an input -/

/-- One step for each input in front of `last`; true when `last` was met. -/
def runUntil [DecidableEq α] (last : α) (step : α → Prog ε σ Unit) : List α → Prog ε σ Bool
  | [] => return false
  | a :: as => do
      if a = last then return true
      step a
      runUntil last step as

theorem run_runUntil [DecidableEq α] (last : α) (as : List α) (s : σ) :
    (runUntil last step as).run s =
      (do runAll step (as.takeWhile (· ≠ last)); return decide (last ∈ as) : Prog ε σ Bool).run s := by
  induction as generalizing s with
  | nil => rfl
  | cons a as ih =>
      rw [runUntil]
      by_cases ha : a = last
      · simp [ha, run_bind]
      · have hmem : last ∈ a :: as ↔ last ∈ as := by simp [Ne.symm ha]
        simp only [ha, ↓reduceIte, List.takeWhile_cons, ne_eq, not_false_eq_true, decide_true,
          runAll_cons, run_bind, hmem]
        cases (step a).run s with
        | stop e s' => rfl
        | ok _ s' => exact ih s'

/-! ## Notes beside the state -/

/-- A program that leaves a second part of the state alone. -/
def beside (x : Prog ε σ α) : Prog ε (σ × τ) α := ⟨fun s => (x.run s.1).mapState (·, s.2)⟩

/-- A step that notes its input before it is taken. -/
def noting (step : α → Prog ε σ Unit) (a : α) : Prog ε (σ × List α) Unit := do
  modify fun s => (s.1, s.2 ++ [a])
  beside (step a)

section Notes

variable {step' : α → Prog ε (σ × List β) Unit} {notes : α → List β}
  (hstep : ∀ a s bs, (step' a).run (s, bs) = ((step a).run s).mapState (·, bs ++ notes a))

include hstep

/-- Steps that take notes do what the steps without notes do. -/
theorem run_noted (as : List α) (s : σ) (bs : List β) :
    ((runAll step' as).run (s, bs)).mapState Prod.fst = (runAll step as).run s := by
  induction as generalizing s bs with
  | nil => rfl
  | cons a as ih =>
      simp only [runAll_cons, run_bind, hstep]
      cases (step a).run s with
      | stop e s' => rfl
      | ok _ s' => exact ih s' _

/-- A run that returns has noted everything in order. -/
theorem run_noted_eq_ok {as : List α} {s : σ} {bs : List β} {t : σ × List β} :
    (runAll step' as).run (s, bs) = .ok () t ↔
      (runAll step as).run s = .ok () t.1 ∧ t.2 = bs ++ as.flatMap notes := by
  obtain ⟨s', bs'⟩ := t
  induction as generalizing s bs with
  | nil => simp [Prod.ext_iff, eq_comm]
  | cons a as ih =>
      simp only [runAll_cons, run_bind, hstep]
      cases (step a).run s with
      | stop e s' => simp [Outcome.mapState]
      | ok _ s' => simp [Outcome.mapState, ih]

end Notes

/-! ## Postconditions -/

theorem post_bind {x : Prog ε σ α} {f : α → Prog ε σ β} {s : σ} {Q : α → σ → Prop} {R : β → σ → Prop}
    {E : ε → σ → Prop} (hx : (x.run s).Post Q E) (hf : ∀ a s', Q a s' → ((f a).run s').Post R E) :
    ((x >>= f).run s).Post R E := by
  rw [run_bind]
  cases h : x.run s with
  | ok a s' => exact hf a s' (by rwa [h] at hx)
  | stop e s' => rwa [h] at hx

/-- What holds at first and is kept by every step that returns holds after every run that
returns. -/
theorem runAll_post {I : σ → Prop} {E : ε → σ → Prop} {s : σ}
    (hstep : ∀ a s, I s → ((step a).run s).Post (fun _ s' => I s') E) (hs : I s) (as : List α) :
    ((runAll step as).run s).Post (fun _ s' => I s') E := by
  induction as generalizing s with
  | nil => exact hs
  | cons a as ih => exact post_bind (hstep a s hs) fun _ s' hs' => ih hs'

/-! ## Fuel -/

/-- With enough fuel the program returns `a` and leaves the state `t`. -/
def Settles (f : ℕ → Prog ε σ α) (s : σ) (a : α) (t : σ) : Prop := ∃ N, ∀ n ≥ N, (f n).run s = .ok a t

/-- Whenever `x` returns, `y` does the same. -/
def AtMost (x y : Prog ε σ α) : Prop := ∀ s a t, x.run s = .ok a t → y.run s = .ok a t

/-- Once the program returns, more fuel makes no difference. -/
def FuelMono (f : ℕ → Prog ε σ α) : Prop := ∀ n, AtMost (f n) (f (n + 1))

section Fuel

variable {f : ℕ → Prog ε σ α} {g : ℕ → α → Prog ε σ β} {s t u : σ} {a : α} {b : β}

theorem Settles.of_run {x : Prog ε σ α} (h : x.run s = .ok a t) : Settles (fun _ => x) s a t :=
  ⟨0, fun _ _ => h⟩

theorem Settles.bind (hf : Settles f s a t) (hg : Settles (fun n => g n a) t b u) :
    Settles (fun n => f n >>= g n) s b u := by
  obtain ⟨N, hN⟩ := hf
  obtain ⟨M, hM⟩ := hg
  refine ⟨max N M, fun n hn => ?_⟩
  rw [run_bind_ok (hN n (by omega))]
  exact hM n (by omega)

/-- Programs that run alike. -/
theorem Settles.of_eq {g : ℕ → Prog ε σ α} {s' : σ} (hg : Settles g s' a t)
    (h : ∀ n, (f n).run s = (g n).run s') :
    Settles f s a t := by
  obtain ⟨N, hN⟩ := hg
  exact ⟨N, fun n hn => (h n).trans (hN n hn)⟩

/-- A step that needs no fuel. -/
theorem Settles.after {x : Prog ε σ α} (hx : x.run s = .ok a t) (hg : Settles (fun n => g n a) t b u) :
    Settles (fun n => x >>= g n) s b u :=
  (Settles.of_run hx).bind hg

theorem AtMost.refl (x : Prog ε σ α) : AtMost x x := fun _ _ _ h => h

theorem AtMost.of_stop (e : ε) (x : Prog ε σ α) : AtMost (stop e) x := fun _ _ _ h => by cases h

theorem AtMost.bind {x x' : Prog ε σ α} {k k' : α → Prog ε σ β} (hx : AtMost x x')
    (hk : ∀ a, AtMost (k a) (k' a)) :
    AtMost (x >>= k) (x' >>= k') := by
  intro s b u h
  obtain ⟨a, t, ha, hb⟩ := run_bind_eq_ok.mp h
  rw [run_bind_ok (hx s a t ha)]
  exact hk a t b u hb

/-- Behind a step that is the same in both. -/
theorem AtMost.after {x : Prog ε σ α} {k k' : α → Prog ε σ β} (hk : ∀ a, AtMost (k a) (k' a)) :
    AtMost (x >>= k) (x >>= k') :=
  (AtMost.refl x).bind hk

theorem AtMost.ite {c : Prop} [Decidable c] {x x' y y' : Prog ε σ α} (hx : AtMost x x')
    (hy : AtMost y y') :
    AtMost (if c then x else y) (if c then x' else y') := by
  split
  · exact hx
  · exact hy

theorem FuelMono.settles (hf : FuelMono f) {n : ℕ} (h : (f n).run s = .ok a t) : Settles f s a t := by
  refine ⟨n, fun m hm => ?_⟩
  obtain ⟨k, rfl⟩ := Nat.exists_eq_add_of_le hm
  induction k with
  | zero => exact h
  | succ k ih => exact hf (n + k) s a t (ih (by omega))

theorem Settles.runAll {step : ℕ → β → Prog ε σ Unit} {I : σ → List β → Prop}
    (hstep : ∀ b bs s, I s (b :: bs) → ∃ t, Settles (fun n => step n b) s () t ∧ I t bs) (bs : List β)
    (hs : I s bs) : ∃ t, Settles (fun n => Prog.runAll (step n) bs) s () t ∧ I t [] := by
  induction bs generalizing s with
  | nil => exact ⟨s, .of_run rfl, hs⟩
  | cons b bs ih =>
      obtain ⟨s', hb, hs'⟩ := hstep b bs s hs
      obtain ⟨t, hbs, ht⟩ := ih hs'
      exact ⟨t, hb.bind (g := fun n _ => Prog.runAll (step n) bs) hbs, ht⟩

end Fuel

end Prog

end CppJson
