import CppJson.Lib.Ancestry
import CppJson.Hsm.Engine

/-!
# The tree of states

State objects made by `HSM_STATE_Create` form a tree (`hierarchy_of_creates`), in which step 1 of
`HSM_Tran` finds the nearest common ancestor and the ways to it (`tranLists_spec`).
-/

namespace CppJson

variable {Ref Fn σ ε : Type}

abbrev parentOf (objects : Ref → HsmState Ref Fn) (s : Ref) : Option Ref := (objects s).parent

/-- State objects whose levels tell how deep they are, at most as deep as the lists of `HSM_Tran`
allow. -/
structure Hierarchy (objects : Ref → HsmState Ref Fn) (hsmRoot : Ref) : Prop where
  root : (objects hsmRoot).parent = none
  ranked : Ranked (parentOf objects) fun s => (objects s).level
  depth : ∀ s, (objects s).level < hsmMaxDepth

/-- A state of the tree. -/
def Under (objects : Ref → HsmState Ref Fn) (hsmRoot s : Ref) : Prop :=
  ∃ l, Climb (parentOf objects) s l hsmRoot

section Tree

variable {objects : Ref → HsmState Ref Fn} {hsmRoot s p : Ref}

theorem under_root : Under objects hsmRoot hsmRoot := ⟨[], .nil⟩

theorem Under.child (h : Under objects hsmRoot p) (hp : (objects s).parent = some p) :
    Under objects hsmRoot s := by
  obtain ⟨l, hl⟩ := h
  exact ⟨s :: l, .cons hp hl⟩

theorem Under.parent (h : Under objects hsmRoot s) (hs : s ≠ hsmRoot) :
    ∃ p, (objects s).parent = some p ∧ Under objects hsmRoot p := by
  obtain ⟨l, hl⟩ := h
  cases hl with
  | nil => exact absurd rfl hs
  | cons hp hl => exact ⟨_, hp, _, hl⟩

theorem Under.of_climb {l : List Ref} (hh : Hierarchy objects hsmRoot) (h : Under objects hsmRoot s)
    (hl : Climb (parentOf objects) s l p) : Under objects hsmRoot p := by
  obtain ⟨k, hk⟩ := h
  rcases hl.linear hk with ⟨j, -, hj⟩ | ⟨j, -, hj⟩
  · exact ⟨j, hj⟩
  · -- nothing lies above the root
    cases hj with
    | nil => exact under_root
    | cons hp => simp [parentOf, hh.root] at hp

theorem Hierarchy.length_lt (hh : Hierarchy objects hsmRoot) {l : List Ref}
    (hl : Climb (parentOf objects) s l hsmRoot) : l.length < hsmMaxDepth := by
  have hlevel : (objects s).level = (objects hsmRoot).level + l.length := hl.level_eq hh.ranked
  have := hh.depth s
  omega

/-- No other state is on the level of the root. -/
theorem Under.eq_root (hh : Hierarchy objects hsmRoot) (h : Under objects hsmRoot s)
    (hlevel : (objects s).level ≤ (objects hsmRoot).level) : s = hsmRoot := by
  obtain ⟨l, hl⟩ := h
  have hlen := hl.level_eq hh.ranked
  have hnil : l = [] := List.eq_nil_of_length_eq_zero (by omega)
  subst hnil
  exact hl.eq_of_nil

end Tree

/-! ## Creating the states -/

/-- No state is created twice or is the root, and parents are created before their children. -/
def InOrder (hsmRoot : Ref) : List Ref → List (StateArgs Ref Fn) → Prop
  | _, [] => True
  | created, c :: calls =>
      c.this ∉ hsmRoot :: created ∧ c.parent.getD hsmRoot ∈ hsmRoot :: created ∧
        InOrder hsmRoot (c.this :: created) calls

/-- The state objects when some are created and the others are as static storage has them. -/
structure Built (objects : Ref → HsmState Ref Fn) (hsmRoot : Ref) (created : List Ref) : Prop where
  hierarchy : Hierarchy objects hsmRoot
  blank : ∀ s, s ∉ created → (objects s).parent = none ∧ (objects s).level = 0
  under : ∀ s ∈ created, Under objects hsmRoot s

section Create

variable {objects objects' : Ref → HsmState Ref Fn} {hsmRoot : Ref} {created : List Ref}

theorem Built.zero (h : ∀ s, (objects s).parent = none ∧ (objects s).level = 0) :
    Built objects hsmRoot [] where
  hierarchy :=
    { root := (h hsmRoot).1
      ranked := fun s p hp => by simp [parentOf, h s] at hp
      depth := fun s => by simp [h s, hsmMaxDepth] }
  blank := fun s _ => h s
  under := by simp

theorem Built.under_of_mem (h : Built objects hsmRoot created) {s : Ref} (hs : s ∈ hsmRoot :: created) :
    Under objects hsmRoot s := by
  rcases List.mem_cons.mp hs with rfl | hs
  · exact under_root
  · exact h.under s hs

/-- A state that is not created yet is nowhere in the tree. -/
theorem Built.not_under (h : Built objects hsmRoot created) {s : Ref} (hs : s ∉ hsmRoot :: created) :
    ¬Under objects hsmRoot s := by
  rw [List.mem_cons, not_or] at hs
  intro hu
  obtain ⟨p, hp, -⟩ := hu.parent hs.1
  simp [(h.blank s hs.2).1] at hp

variable [DecidableEq Ref]

theorem hsmStateCreate_eq {this : Ref} {name : CStr} {handler : Fn} {parent : Option Ref}
    (h : hsmStateCreate objects hsmRoot this name handler parent = some objects') :
    (objects (parent.getD hsmRoot)).level + 1 < hsmMaxDepth ∧
      objects' = Function.update objects this
        ⟨some (parent.getD hsmRoot), handler, name, (objects (parent.getD hsmRoot)).level + 1⟩ := by
  simp only [hsmStateCreate] at h
  split at h
  · cases h
  · rename_i hlevel
    exact ⟨by omega, (Option.some.inj h).symm⟩

theorem Built.create (h : Built objects hsmRoot created) {c : StateArgs Ref Fn}
    (hthis : c.this ∉ hsmRoot :: created) (hparent : c.parent.getD hsmRoot ∈ hsmRoot :: created)
    (hrun : hsmStateCreate objects hsmRoot c.this c.name c.handler c.parent = some objects') :
    Built objects' hsmRoot (c.this :: created) := by
  obtain ⟨hlevel, rfl⟩ := hsmStateCreate_eq hrun
  set p := c.parent.getD hsmRoot with hp
  have hne : c.this ≠ hsmRoot := fun heq => hthis (heq ▸ List.mem_cons_self)
  have hnew : c.this ∉ created := fun hmem => hthis (List.mem_cons_of_mem _ hmem)
  have hpne : p ≠ c.this := fun heq => hthis (heq ▸ hparent)
  have hclimb : ∀ s, Under objects hsmRoot s →
      Under (Function.update objects c.this ⟨some p, c.handler, c.name, (objects p).level + 1⟩)
        hsmRoot s := by
    rintro s ⟨l, hl⟩
    refine ⟨l, hl.congr fun x hx => ?_⟩
    have hx' : x ≠ c.this := by
      rintro rfl
      obtain ⟨y, hy⟩ := hl.parent_mem hx
      simp [parentOf, (h.blank _ hnew).1] at hy
    simp [parentOf, hx']
  constructor
  · constructor
    · simpa [hne.symm] using h.hierarchy.root
    · intro s q hq
      by_cases hs : s = c.this
      · subst hs
        obtain rfl : p = q := by simpa [parentOf] using hq
        simp [hpne]
      · -- the parent of a state in the tree is in the tree too
        have hq' : parentOf objects s = some q := by simpa [parentOf, hs] using hq
        have hmem : s ∈ created := by
          by_contra hmem
          simp [parentOf, (h.blank s hmem).1] at hq'
        have huq : Under objects hsmRoot q := (h.under s hmem).of_climb h.hierarchy (.cons hq' .nil)
        have hqne : q ≠ c.this := by
          rintro rfl
          exact h.not_under hthis huq
        simpa [hs, hqne] using h.hierarchy.ranked s q hq'
    · intro s
      by_cases hs : s = c.this
      · simpa [hs] using hlevel
      · simpa [hs] using h.hierarchy.depth s
  · intro s hs
    rw [List.mem_cons, not_or] at hs
    simpa [hs.1] using h.blank s hs.2
  · intro s hs
    rcases List.mem_cons.mp hs with rfl | hs
    · exact (hclimb p (h.under_of_mem hparent)).child (by simp)
    · exact hclimb s (h.under s hs)

/-- Creating the states of a machine, parents first, makes a tree of them. -/
theorem Built.creates {calls : List (StateArgs Ref Fn)} (h : Built objects hsmRoot created)
    (horder : InOrder hsmRoot created calls)
    (hrun : hsmStatesCreate hsmRoot objects calls = some objects') :
    Built objects' hsmRoot ((calls.map (·.this)).reverse ++ created) ∧
      (∀ s ∈ hsmRoot :: created, objects' s = objects s) ∧
      ∀ c ∈ calls, (objects' c.this).parent = some (c.parent.getD hsmRoot) ∧
        (objects' c.this).handler = c.handler := by
  induction calls generalizing objects created with
  | nil =>
      obtain rfl : objects = objects' := Option.some.inj hrun
      exact ⟨by simpa using h, by simp, by simp⟩
  | cons c calls ih =>
      obtain ⟨hthis, hparent, horder⟩ := horder
      simp only [hsmStatesCreate, List.foldlM_cons, Option.bind_eq_bind,
        Option.bind_eq_some_iff] at hrun
      obtain ⟨objects₁, hcreate, hrun⟩ := hrun
      obtain ⟨hbuilt, hold, hnew⟩ := ih (h.create hthis hparent hcreate) horder hrun
      obtain ⟨-, rfl⟩ := hsmStateCreate_eq hcreate
      refine ⟨by simpa using hbuilt, fun s hs => ?_, fun d hd => ?_⟩
      · have hne : s ≠ c.this := fun heq => hthis (heq ▸ hs)
        rw [hold s (by simp only [List.mem_cons] at hs ⊢; tauto), Function.update_of_ne hne]
      · rcases List.mem_cons.mp hd with rfl | hd
        · rw [hold _ (by simp)]
          simp
        · exact hnew d hd

end Create

/-! ## Step 1 of a transition -/

namespace Machine

variable {m : Machine Ref Fn σ ε} {hsmRoot : Ref}

theorem pushState_ok {list : List Ref} (s : Ref) (h : list.length < hsmMaxDepth) :
    pushState list s = (.ok (list ++ [s]) : Except (Fault ε) (List Ref)) :=
  if_pos h

/-- The loop of step 1a climbs from the deeper state to the level of the other one. -/
theorem equalizeLevels_spec (hh : Hierarchy m.state hsmRoot) {n : ℕ} {s d : Ref}
    (listExit listEntry : List Ref) (hs : Under m.state hsmRoot s) (hd : Under m.state hsmRoot d)
    (hn : (m.state s).level + (m.state d).level < n)
    (hexit : listExit.length + (m.state s).level ≤ hsmMaxDepth)
    (hentry : listEntry.length + (m.state d).level ≤ hsmMaxDepth) :
    ∃ lx le s' d', Climb (parentOf m.state) s lx s' ∧ Climb (parentOf m.state) d le d' ∧
      (m.state s').level = (m.state d').level ∧ (lx = [] ∨ le = []) ∧
      m.equalizeLevels n (some s) (some d) listExit listEntry =
        (.ok (some s', some d', listExit ++ lx, listEntry ++ le) : Except (Fault ε) _) := by
  induction n generalizing s d listExit listEntry with
  | zero => omega
  | succ n ih =>
      rw [equalizeLevels]
      by_cases heq : (m.state s).level = (m.state d).level
      · exact ⟨[], [], s, d, .nil, .nil, heq, .inl rfl, by simp [heq]⟩
      by_cases hlt : (m.state d).level < (m.state s).level
      · -- the source is deeper
        have hne : s ≠ hsmRoot := by
          rintro rfl
          obtain ⟨k, hk⟩ := hd
          have := hk.level_eq hh.ranked
          omega
        obtain ⟨p, hp, hup⟩ := hs.parent hne
        have hlevel : (m.state s).level = (m.state p).level + 1 := hh.ranked _ _ hp
        obtain ⟨lx, le, s', d', hlx, hle, hsame, hnil, hrun⟩ :=
          ih (listExit ++ [s]) listEntry hup hd (by omega)
            (by simp only [List.length_append, List.length_singleton]; omega) hentry
        have hle' : le = [] := by
          have := hle.level_eq hh.ranked
          have := hlx.level_eq hh.ranked
          rcases hnil with rfl | rfl
          · exact List.eq_nil_of_length_eq_zero (by simp only [List.length_nil] at *; omega)
          · rfl
        refine ⟨s :: lx, le, s', d', .cons hp hlx, hle, hsame, .inr hle', ?_⟩
        simp only [heq, hlt, ↓reduceIte, pushState_ok s (show listExit.length < hsmMaxDepth by omega)]
        simp only [hp, bind, Except.bind, hrun, List.append_assoc, List.singleton_append]
      · have hne : d ≠ hsmRoot := by
          rintro rfl
          obtain ⟨k, hk⟩ := hs
          have := hk.level_eq hh.ranked
          omega
        obtain ⟨p, hp, hup⟩ := hd.parent hne
        have hlevel : (m.state d).level = (m.state p).level + 1 := hh.ranked _ _ hp
        obtain ⟨lx, le, s', d', hlx, hle, hsame, hnil, hrun⟩ :=
          ih listExit (listEntry ++ [d]) hs hup (by omega) hexit
            (by simp only [List.length_append, List.length_singleton]; omega)
        have hlx' : lx = [] := by
          have := hle.level_eq hh.ranked
          have := hlx.level_eq hh.ranked
          rcases hnil with rfl | rfl
          · rfl
          · exact List.eq_nil_of_length_eq_zero (by simp only [List.length_nil] at *; omega)
        refine ⟨lx, d :: le, s', d', hlx, .cons hp hle, hsame, .inl hlx', ?_⟩
        simp only [heq, hlt, ↓reduceIte, pushState_ok d (show listEntry.length < hsmMaxDepth by omega)]
        simp only [hp, bind, Except.bind, hrun, List.append_assoc, List.singleton_append]

/-- The loop of step 1b climbs from both states until it meets their nearest common ancestor. -/
theorem findCommonParent_spec [DecidableEq Ref] (hh : Hierarchy m.state hsmRoot) {n : ℕ} {s d : Ref}
    (listExit listEntry : List Ref) (hs : Under m.state hsmRoot s) (hd : Under m.state hsmRoot d)
    (hsame : (m.state s).level = (m.state d).level) (hn : (m.state s).level < n)
    (hexit : listExit.length + (m.state s).level ≤ hsmMaxDepth)
    (hentry : listEntry.length + (m.state d).level ≤ hsmMaxDepth) :
    ∃ lx le c, Climb (parentOf m.state) s lx c ∧ Climb (parentOf m.state) d le c ∧ lx.Disjoint le ∧
      m.findCommonParent n (some s) (some d) listExit listEntry =
        (.ok (listExit ++ lx, listEntry ++ le) : Except (Fault ε) _) := by
  induction n generalizing s d listExit listEntry with
  | zero => omega
  | succ n ih =>
      rw [findCommonParent]
      by_cases heq : s = d
      · subst heq
        exact ⟨[], [], s, .nil, .nil, by simp, by simp⟩
      have hs' : s ≠ hsmRoot := by
        rintro rfl
        exact heq (hd.eq_root hh hsame.ge).symm
      have hd' : d ≠ hsmRoot := by
        rintro rfl
        exact heq (hs.eq_root hh hsame.le)
      obtain ⟨p, hp, hup⟩ := hs.parent hs'
      obtain ⟨q, hq, huq⟩ := hd.parent hd'
      have hlevel : (m.state s).level = (m.state p).level + 1 := hh.ranked _ _ hp
      have hlevel' : (m.state d).level = (m.state q).level + 1 := hh.ranked _ _ hq
      obtain ⟨lx, le, c, hlx, hle, hdisj, hrun⟩ :=
        ih (listExit ++ [s]) (listEntry ++ [d]) hup huq (by omega)
          (by omega) (by simp only [List.length_append, List.length_singleton]; omega)
          (by simp only [List.length_append, List.length_singleton]; omega)
      refine ⟨s :: lx, d :: le, c, .cons hp hlx, .cons hq hle, ?_, ?_⟩
      · -- `s` and `d` lie deeper than what is still to come
        have hsle : s ∉ le := fun h => by
          have := (hle.level_mem hh.ranked s h).2
          omega
        have hdlx : d ∉ lx := fun h => by
          have := (hlx.level_mem hh.ranked d h).2
          omega
        simp only [List.disjoint_cons_left, List.disjoint_cons_right, List.mem_cons, not_or]
        exact ⟨⟨Ne.symm heq, hdlx⟩, hsle, hdisj⟩
      · have hexit' : listExit.length < hsmMaxDepth := by omega
        have hentry' : listEntry.length < hsmMaxDepth := by omega
        simp only [Option.some.injEq, heq, ↓reduceIte, pushState_ok s hexit', pushState_ok d hentry']
        simp only [hp, hq, bind, Except.bind, hrun, List.append_assoc, List.singleton_append]

/-- Step 1 of `HSM_Tran` between any two states: no list overflows, no NULL is met, both loops end,
and the lists are the ways up to the nearest common ancestor. -/
theorem tranLists_spec [DecidableEq Ref] (hh : Hierarchy m.state hsmRoot) {src dst : Ref}
    (hs : Under m.state hsmRoot src) (hd : Under m.state hsmRoot dst) :
    ∃ lx le c, m.tranLists src dst = (.ok (lx, le) : Except (Fault ε) _) ∧
      Climb (parentOf m.state) src lx c ∧
      Climb (parentOf m.state) dst le c ∧ Nearest (parentOf m.state) src dst c := by
  have hds := hh.depth src
  have hdd := hh.depth dst
  simp only [hsmMaxDepth] at hds hdd
  obtain ⟨lx, le, s, d, hlx, hle, hsame, hnil, hrun⟩ :=
    equalizeLevels_spec (ε := ε) hh (n := 2 * hsmMaxDepth + 1) [] [] hs hd
      (by simp only [hsmMaxDepth]; omega) (by simp only [hsmMaxDepth, List.length_nil]; omega)
      (by simp only [hsmMaxDepth, List.length_nil]; omega)
  have hls := hlx.level_eq hh.ranked
  have hld := hle.level_eq hh.ranked
  obtain ⟨lx', le', c, hlx', hle', hdisj, hrun'⟩ :=
    findCommonParent_spec (ε := ε) hh (n := 2 * hsmMaxDepth + 1) lx le (hs.of_climb hh hlx)
      (hd.of_climb hh hle) hsame (by simp only [hsmMaxDepth]; omega) (by simp only [hsmMaxDepth]; omega)
      (by simp only [hsmMaxDepth]; omega)
  have hclimb := hlx.append hlx'
  have hclimb' := hle.append hle'
  refine ⟨lx ++ lx', le ++ le', c, ?_, hclimb, hclimb', nearest_of_disjoint hclimb hclimb' ?_⟩
  · simp only [tranLists, hrun, bind, Except.bind, List.nil_append, hrun']
  · -- what step 1a took lies deeper than the other side
    rcases hnil with rfl | rfl
    · rw [List.nil_append, List.disjoint_append_right]
      refine ⟨fun x hx hx' => ?_, hdisj⟩
      have := (hlx'.level_mem hh.ranked x hx).2
      have := (hle.level_mem hh.ranked x hx').1
      omega
    · rw [List.nil_append, List.disjoint_append_left]
      refine ⟨fun x hx hx' => ?_, hdisj⟩
      have := (hlx.level_mem hh.ranked x hx).1
      have := (hle'.level_mem hh.ranked x hx').2
      omega

end Machine

end CppJson
