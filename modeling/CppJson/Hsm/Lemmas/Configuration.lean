import CppJson.Hsm.Lemmas.Hierarchy

/-!
# The open states

ENTRY opens a state and EXIT closes it. Whatever the handlers of a machine do with their memory and
with `HSM_Tran`, the states open between two events are the current state and those above it.
-/

namespace CppJson

variable {Ref Fn σ ε : Type}

/-! ## The code of an application -/

section Code

variable (objects : Ref → HsmState Ref Fn) (hsmRoot : Ref) (tran : Tran Ref σ ε)

/-- Code that works on its own memory, may end the program, and uses the engine through `HSM_Tran`
only. -/
inductive AppCode : {α : Type} → HsmProg Ref σ ε α → Prop where
  | pure {α : Type} (a : α) : AppCode (pure a)
  | bind {α β : Type} {x : HsmProg Ref σ ε α} {f : α → HsmProg Ref σ ε β} :
      AppCode x → (∀ a, AppCode (f a)) → AppCode (x >>= f)
  | get : AppCode Prog.get
  | modify (f : σ → σ) : AppCode (Prog.modify fun w => { w with mem := f w.mem })
  | stop {α : Type} (reason : ε) : AppCode (Prog.stop (.app reason) : HsmProg Ref σ ε α)
  | tran {s : Ref} {method : Option (HsmProg Ref σ ε Unit)} :
      Under objects hsmRoot s → (∀ hook ∈ method, AppCode hook) → AppCode (tran s method)

end Code

section Code

variable {objects : Ref → HsmState Ref Fn} {hsmRoot : Ref} {tran : Tran Ref σ ε}
  {P : World Ref σ → Prop} {E : Fault ε → World Ref σ → Prop}

/-- What memory and `HSM_Tran` keep is kept by the code of an application. -/
theorem AppCode.post {α : Type} {x : HsmProg Ref σ ε α} (hx : AppCode objects hsmRoot tran x)
    (hmem : ∀ w (f : σ → σ), P w → P { w with mem := f w.mem })
    (hstop : ∀ reason w, P w → E (.app reason) w)
    (htran : ∀ s method, Under objects hsmRoot s →
      (∀ hook ∈ method, AppCode objects hsmRoot tran hook) → ∀ w, P w →
        ((tran s method).run w).Post (fun _ => P) E)
    {w : World Ref σ} (hw : P w) : (x.run w).Post (fun _ => P) E := by
  induction hx generalizing w with
  | pure a => exact hw
  | bind _ _ ih ih' => exact Prog.post_bind (ih hw) fun a w' hw' => ih' a hw'
  | get => exact hw
  | modify f => exact hmem w f hw
  | stop reason => exact hstop reason w hw
  | tran hs hhook _ => exact htran _ _ hs hhook w hw

end Code

namespace Machine

/-- The handlers are such code, and that of the root drops every event as `HSM_RootHandler` does. -/
structure Tame (m : Machine Ref Fn σ ε) (hsmRoot : Ref) : Prop where
  code : ∀ s tran e, AppCode m.state hsmRoot tran (m.call (m.state s).handler tran e)
  root : ∀ tran e, m.call (m.state hsmRoot).handler tran e = pure hsmeNull

theorem notifyAll_eq (m : Machine Ref Fn σ ε) (tran : Tran Ref σ ε) (e : HsmEvent) (l : List Ref) :
    m.notifyAll tran e l = Prog.runAll (m.notify tran e) l := by
  induction l with
  | nil => rfl
  | cons s l ih => rw [notifyAll, ih, Prog.runAll_cons]

end Machine

/-! ## Following a trace -/

/-- The innermost open state, when the open states are those on the way to the root. -/
theorem Climb.headD_eq {objects : Ref → HsmState Ref Fn} {hsmRoot c : Ref} {opened : List Ref}
    (h : Climb (parentOf objects) c opened hsmRoot) : opened.headD hsmRoot = c := by
  cases h with
  | nil => rfl
  | cons => rfl

/-- The handlers that `HSM_Run` has called, and with what. -/
def handlerCalls (trace : List (Obs Ref)) : List (Ref × HsmEvent) :=
  trace.filterMap fun
    | .handled s e => some (s, e)
    | _ => none

theorem handlerCalls_snoc (trace : List (Obs Ref)) (o : Obs Ref) :
    handlerCalls (trace ++ [o]) = handlerCalls trace ++ handlerCalls [o] := List.filterMap_append

theorem handlerCalls_completed (s d : Ref) : handlerCalls [.completed s d] = [] := rfl
theorem handlerCalls_notified (s : Ref) (e : HsmEvent) : handlerCalls [.notified s e] = [] := rfl

variable [DecidableEq Ref]

/-- The open states, innermost first: ENTRY opens a state inside the innermost one, EXIT closes the
innermost one. -/
def followOne (objects : Ref → HsmState Ref Fn) (hsmRoot : Ref) (opened : List Ref) :
    Obs Ref → Option (List Ref)
  | .notified s e =>
      if e = hsmeEntry then
        if (objects s).parent = some (opened.headD hsmRoot) then some (s :: opened) else none
      else if e = hsmeExit then
        match opened with
        | [] => none
        | t :: opened => if t = s then some opened else none
      else some opened
  | _ => some opened

def follow (objects : Ref → HsmState Ref Fn) (hsmRoot : Ref) (opened : List Ref)
    (trace : List (Obs Ref)) :
    Option (List Ref) :=
  trace.foldlM (followOne objects hsmRoot) opened

section Follow

variable {objects : Ref → HsmState Ref Fn} {hsmRoot s : Ref} {init opened : List Ref}
  {trace : List (Obs Ref)}

theorem follow_snoc (o : Obs Ref) (h : follow objects hsmRoot init trace = some opened) :
    follow objects hsmRoot init (trace ++ [o]) = followOne objects hsmRoot opened o := by
  simp only [follow] at h
  simp [follow, List.foldlM_append, h]

theorem followOne_exit :
    followOne objects hsmRoot (s :: opened) (.notified s hsmeExit) = some opened := by
  simp [followOne, show hsmeExit ≠ hsmeEntry by decide]

theorem followOne_entry (h : (objects s).parent = some (opened.headD hsmRoot)) :
    followOne objects hsmRoot opened (.notified s hsmeEntry) = some (s :: opened) := by
  simp [followOne, h]

theorem followOne_init : followOne objects hsmRoot opened (.notified s hsmeInit) = some opened := by
  simp [followOne, show hsmeInit ≠ hsmeEntry by decide, show hsmeInit ≠ hsmeExit by decide]

end Follow

/-! ## What the engine keeps -/

namespace Machine

variable (m : Machine Ref Fn σ ε) (hsmRoot : Ref) (init : List Ref) (calls : List (Ref × HsmEvent))

/-- A transition out of `cur` is under way, and `opened` are the states still or already open. -/
structure Busy (cur : Ref) (opened : List Ref) (w : World Ref σ) : Prop where
  hsmTran : w.hsmTran = true
  curState : w.curState = cur
  opened : follow m.state hsmRoot init w.trace = some opened
  calls : handlerCalls w.trace = calls

/-- No transition is under way, and the open states are the current one and those above it. -/
structure Settled (w : World Ref σ) : Prop where
  hsmTran : w.hsmTran = false
  opened : ∃ opened, follow m.state hsmRoot init w.trace = some opened ∧
    Climb (parentOf m.state) w.curState opened hsmRoot
  calls : handlerCalls w.trace = calls

/-- The application has ended the program or transitions nest too deep; all states were opened and
closed in order. -/
structure Ended (e : Fault ε) (w : World Ref σ) : Prop where
  reason : (∃ reason, e = .app reason) ∨ e = .tooDeep
  opened : ∃ opened, follow m.state hsmRoot init w.trace = some opened
  calls : handlerCalls w.trace = calls

variable {m : Machine Ref Fn σ ε} {hsmRoot : Ref} {init : List Ref} {calls : List (Ref × HsmEvent)}
  {w : World Ref σ} {cur : Ref} {opened : List Ref}

theorem Settled.ended (h : m.Settled hsmRoot init calls w) {e : Fault ε}
    (he : (∃ reason, e = .app reason) ∨ e = .tooDeep) : m.Ended hsmRoot init calls e w := by
  obtain ⟨opened, hopened, -⟩ := h.opened
  exact ⟨he, ⟨opened, hopened⟩, h.calls⟩

theorem Busy.ended (h : m.Busy hsmRoot init calls cur opened w) {e : Fault ε}
    (he : (∃ reason, e = .app reason) ∨ e = .tooDeep) : m.Ended hsmRoot init calls e w :=
  ⟨he, ⟨opened, h.opened⟩, h.calls⟩

theorem Busy.observe {opened' : List Ref} (h : m.Busy hsmRoot init calls cur opened w) {o : Obs Ref}
    (ho : followOne m.state hsmRoot opened o = some opened') (hcalls : handlerCalls [o] = [])
    {E : Fault ε → World Ref σ → Prop} :
    ((observe o : HsmProg Ref σ ε Unit).run w).Post
      (fun _ => m.Busy hsmRoot init calls cur opened') E where
  hsmTran := h.hsmTran
  curState := h.curState
  opened := (follow_snoc o h.opened).trans ho
  calls := by simp [handlerCalls_snoc, h.calls, hcalls]

theorem Settled.observe (h : m.Settled hsmRoot init calls w) {o : Obs Ref}
    (ho : ∀ opened, followOne m.state hsmRoot opened o = some opened)
    {E : Fault ε → World Ref σ → Prop} :
    ((observe o : HsmProg Ref σ ε Unit).run w).Post
      (fun _ => m.Settled hsmRoot init (calls ++ handlerCalls [o])) E := by
  obtain ⟨opened, hopened, hclimb⟩ := h.opened
  exact ⟨h.hsmTran, ⟨opened, (follow_snoc o hopened).trans (ho opened), hclimb⟩,
    by simp [handlerCalls_snoc, h.calls]⟩

/-! ### During a transition -/

/-- A transition that is asked for while another is under way changes nothing. -/
theorem hsmTran_busy_post (n : ℕ) (s : Ref) (method : Option (HsmProg Ref σ ε Unit))
    (h : m.Busy hsmRoot init calls cur opened w) :
    ((m.hsmTran n s method).run w).Post (fun _ => m.Busy hsmRoot init calls cur opened)
      (m.Ended hsmRoot init calls) := by
  cases n with
  | zero => exact h.ended (.inr rfl)
  | succ n =>
      rw [hsmTran]
      simp only [Prog.run_get_bind, h.hsmTran, ↓reduceIte]
      exact h.observe rfl rfl

theorem appCode_busy_post {n : ℕ} {α : Type} {x : HsmProg Ref σ ε α}
    (hx : AppCode m.state hsmRoot (m.hsmTran n) x) (h : m.Busy hsmRoot init calls cur opened w) :
    (x.run w).Post (fun _ => m.Busy hsmRoot init calls cur opened) (m.Ended hsmRoot init calls) := by
  refine hx.post (fun w f h => ?_) (fun reason w h => h.ended (.inl ⟨reason, rfl⟩)) ?_ h
  · exact ⟨h.hsmTran, h.curState, h.opened, h.calls⟩
  · exact fun s method _ _ w h => hsmTran_busy_post n s method h

theorem notify_busy_post (hm : m.Tame hsmRoot) {n : ℕ} {s : Ref} {e : HsmEvent} {opened' : List Ref}
    (h : m.Busy hsmRoot init calls cur opened w)
    (ho : followOne m.state hsmRoot opened (.notified s e) = some opened') :
    ((m.notify (m.hsmTran n) e s).run w).Post (fun _ => m.Busy hsmRoot init calls cur opened')
      (m.Ended hsmRoot init calls) := by
  rw [notify]
  refine Prog.post_bind (h.observe ho rfl) fun _ w' h' => ?_
  exact Prog.post_bind (appCode_busy_post (hm.code s _ e) h') fun _ _ h'' => h''

/-- The exits of a transition close the states on the way to the common ancestor. -/
theorem exits_post (hm : m.Tame hsmRoot) {n : ℕ} {lx : List Ref}
    (h : m.Busy hsmRoot init calls cur (lx ++ opened) w) :
    ((m.notifyAll (m.hsmTran n) hsmeExit lx).run w).Post (fun _ => m.Busy hsmRoot init calls cur opened)
      (m.Ended hsmRoot init calls) := by
  induction lx generalizing w with
  | nil => exact h
  | cons s lx ih =>
      rw [notifyAll]
      exact Prog.post_bind (notify_busy_post hm h followOne_exit) fun _ w' h' => ih h'

/-- The entries of a transition open the states on the way down from the common ancestor. -/
theorem entries_post (hm : m.Tame hsmRoot) {n : ℕ} {le : List Ref} {d c : Ref}
    (hle : Climb (parentOf m.state) d le c) (hc : opened.headD hsmRoot = c)
    (h : m.Busy hsmRoot init calls cur opened w) :
    ((m.notifyAll (m.hsmTran n) hsmeEntry le.reverse).run w).Post
      (fun _ => m.Busy hsmRoot init calls cur (le ++ opened))
      (m.Ended hsmRoot init calls) := by
  induction hle with
  | nil => exact h
  | @cons s p c le hp hle ih =>
      have hhead : (le ++ opened).headD hsmRoot = p := by
        cases hle with
        | nil => exact hc
        | cons => rfl
      rw [notifyAll_eq] at ih ⊢
      rw [List.reverse_cons, Prog.run_runAll_append]
      refine Prog.post_bind (ih hc) fun _ w' h' => ?_
      refine Prog.post_bind (notify_busy_post hm h' (followOne_entry ?_)) fun _ _ h'' => h''
      rw [hhead]
      exact hp

/-! ### A whole transition -/

/-- Code at rest, given what its calls of `HSM_Tran` do. -/
theorem appCode_settled_post {tran : Tran Ref σ ε}
    (htran : ∀ s method, Under m.state hsmRoot s →
      (∀ hook ∈ method, AppCode m.state hsmRoot tran hook) → ∀ w, m.Settled hsmRoot init calls w →
        ((tran s method).run w).Post (fun _ => m.Settled hsmRoot init calls)
          (m.Ended hsmRoot init calls))
    {α : Type} {x : HsmProg Ref σ ε α} (hx : AppCode m.state hsmRoot tran x)
    (h : m.Settled hsmRoot init calls w) :
    (x.run w).Post (fun _ => m.Settled hsmRoot init calls) (m.Ended hsmRoot init calls) :=
  hx.post (fun _ _ h => ⟨h.hsmTran, h.opened, h.calls⟩)
    (fun reason _ h => h.ended (.inl ⟨reason, rfl⟩)) htran h

/-- Steps 4 to 6 of `HSM_Tran`. -/
def arrive (m : Machine Ref Fn σ ε) (n : ℕ) (src dst : Ref) (listEntry : List Ref) :
    HsmProg Ref σ ε Unit := do
  m.notifyAll (m.hsmTran n) hsmeEntry listEntry.reverse
  Prog.modify fun w => { w with curState := dst }
  Prog.modify fun w => { w with hsmTran := false }
  observe (.completed src dst)
  m.notify (m.hsmTran n) hsmeInit dst

theorem arrive_post (hm : m.Tame hsmRoot) {n : ℕ}
    (htran : ∀ s method, Under m.state hsmRoot s →
      (∀ hook ∈ method, AppCode m.state hsmRoot (m.hsmTran n) hook) →
        ∀ w, m.Settled hsmRoot init calls w → ((m.hsmTran n s method).run w).Post
          (fun _ => m.Settled hsmRoot init calls) (m.Ended hsmRoot init calls))
    {s c : Ref} {le : List Ref} (hle : Climb (parentOf m.state) s le c)
    (hopened : Climb (parentOf m.state) c opened hsmRoot)
    (h : m.Busy hsmRoot init calls cur opened w) :
    ((m.arrive n cur s le).run w).Post (fun _ => m.Settled hsmRoot init calls)
      (m.Ended hsmRoot init calls) := by
  rw [arrive]
  refine Prog.post_bind (entries_post hm hle hopened.headD_eq h) fun _ w' h' => ?_
  simp only [Prog.run_modify_bind]
  have hsettled : m.Settled hsmRoot init calls { w' with curState := s, hsmTran := false } :=
    ⟨rfl, ⟨_, h'.opened, hle.append hopened⟩, h'.calls⟩
  refine Prog.post_bind (hsettled.observe fun _ => rfl) fun _ w₁ h₁ => ?_
  rw [notify]
  refine Prog.post_bind (h₁.observe fun _ => followOne_init) fun _ w₂ h₂ => ?_
  rw [handlerCalls_completed, handlerCalls_notified, List.append_nil, List.append_nil] at h₂
  exact Prog.post_bind (appCode_settled_post htran (hm.code s _ _) h₂) fun _ _ h₃ => h₃

/-- `HSM_Tran` at rest: the old states are closed up to the common ancestor and the new ones opened
down from it. -/
theorem hsmTran_settled_post (hh : Hierarchy m.state hsmRoot) (hm : m.Tame hsmRoot) {n : ℕ}
    {s : Ref} {method : Option (HsmProg Ref σ ε Unit)} (hs : Under m.state hsmRoot s)
    (hmethod : ∀ hook ∈ method, AppCode m.state hsmRoot (m.hsmTran n) hook)
    (h : m.Settled hsmRoot init calls w) :
    ((m.hsmTran n s method).run w).Post (fun _ => m.Settled hsmRoot init calls)
      (m.Ended hsmRoot init calls) := by
  induction n generalizing s method w with
  | zero => exact h.ended (.inr rfl)
  | succ n ih =>
      obtain ⟨opened, hopened, hclimb⟩ := h.opened
      obtain ⟨lx, le, c, hlists, hlx, hle, -⟩ := tranLists_spec (ε := ε) hh ⟨opened, hclimb⟩ hs
      -- the states on the way to the common ancestor are the innermost ones
      obtain ⟨k, rfl, hk⟩ : ∃ k, opened = lx ++ k ∧ Climb (parentOf m.state) c k hsmRoot := by
        rcases hlx.linear hclimb with h' | ⟨k, rfl, hk⟩
        · exact h'
        · cases hk with
          | nil => exact ⟨[], by simp, .nil⟩
          | cons hp => simp [parentOf, hh.root] at hp
      rw [hsmTran]
      simp only [Prog.run_get_bind, h.hsmTran, Bool.false_eq_true, ↓reduceIte,
        Prog.run_modify_bind, hlists]
      have hbusy : m.Busy hsmRoot init calls w.curState (lx ++ k) { w with hsmTran := true } :=
        ⟨rfl, rfl, hopened, h.calls⟩
      refine Prog.post_bind (exits_post hm hbusy) fun _ w₁ h₁ => ?_
      have harrive : ∀ {w₂}, m.Busy hsmRoot init calls w.curState k w₂ →
          ((m.arrive n w.curState s le).run w₂).Post (fun _ => m.Settled hsmRoot init calls)
            (m.Ended hsmRoot init calls) :=
        fun h₂ => arrive_post hm (fun _ _ hs hhook _ h => ih hs hhook h) hle hk h₂
      cases method with
      | none => exact harrive h₁
      | some hook =>
          exact Prog.post_bind (appCode_busy_post (hmethod hook rfl) h₁) fun _ w₂ h₂ => harrive h₂

/-! ### Events -/

/-- An event on its way up a chain: what a handler returns goes to the state above, up to the
handler that returns NULL or never returns. With the states and the events offered to them, and how
the way ends. -/
inductive Offered (m : Machine Ref Fn σ ε) (tran : Tran Ref σ ε) : List Ref → HsmEvent → World Ref σ →
    List (Ref × HsmEvent) → Outcome (Fault ε) (World Ref σ) Unit → Prop where
  | consumed {chain w} : Offered m tran chain hsmeNull w [] (.ok () w)
  | passed {s chain e e' w w₁ offers o} : e ≠ hsmeNull →
      (m.call (m.state s).handler tran e).run { w with trace := w.trace ++ [.handled s e] } =
        .ok e' w₁ →
      Offered m tran chain e' w₁ offers o → Offered m tran (s :: chain) e w ((s, e) :: offers) o
  | stopped {s chain e f w w₁} : e ≠ hsmeNull →
      (m.call (m.state s).handler tran e).run { w with trace := w.trace ++ [.handled s e] } =
        .stop f w₁ →
      Offered m tran (s :: chain) e w [(s, e)] (.stop f w₁)

theorem handler_post (hh : Hierarchy m.state hsmRoot) (hm : m.Tame hsmRoot) (n : ℕ) (s : Ref)
    (e : HsmEvent) (h : m.Settled hsmRoot init calls w) :
    ((m.call (m.state s).handler (m.hsmTran n) e).run w).Post (fun _ => m.Settled hsmRoot init calls)
      (m.Ended hsmRoot init calls) :=
  appCode_settled_post (fun _ _ hs hhook _ h => hsmTran_settled_post hh hm hs hhook h) (hm.code s _ e) h

/-- The loop of `HSM_Run` offers the event to a state and then to those above it, up to the root at
the latest. -/
theorem hsmRunLoop_post (hh : Hierarchy m.state hsmRoot) (hm : m.Tame hsmRoot) {n k : ℕ} {s : Ref}
    {l : List Ref} {e : HsmEvent} (hl : Climb (parentOf m.state) s l hsmRoot)
    (hn : l.length + 1 < n) (h : m.Settled hsmRoot init calls w) :
    ∃ offers, m.Offered (m.hsmTran k) (l ++ [hsmRoot]) e w offers
        ((m.hsmRunLoop (m.hsmTran k) n e (some s)).run w) ∧
      ((m.hsmRunLoop (m.hsmTran k) n e (some s)).run w).Post
        (fun _ => m.Settled hsmRoot init (calls ++ offers))
        (m.Ended hsmRoot init (calls ++ offers)) := by
  induction n generalizing s l e w calls with
  | zero => omega
  | succ n ih =>
      rw [hsmRunLoop]
      by_cases he : e = hsmeNull
      · subst he
        exact ⟨[], .consumed, by rw [List.append_nil]; exact h⟩
      simp only [he, ↓reduceIte, observe, Prog.run_modify_bind]
      have h₁ : m.Settled hsmRoot init (calls ++ [(s, e)])
          { w with trace := w.trace ++ [.handled s e] } :=
        h.observe (o := .handled s e) (E := m.Ended hsmRoot init calls) fun _ => rfl
      cases hl with
      | nil =>
          -- the root drops the event
          obtain ⟨n, rfl⟩ : ∃ k, n = k + 1 := ⟨n - 1, by simp only [List.length_nil] at hn; omega⟩
          have hcall := hm.root (m.hsmTran k) e
          rw [hcall, Prog.run_bind_ok (Prog.run_pure hsmeNull _), hh.root, hsmRunLoop]
          exact ⟨_, .passed he (by rw [hcall, Prog.run_pure]) .consumed, h₁⟩
      | @cons _ p _ l hp hl =>
          have hpost := handler_post hh hm k s e h₁
          cases hcall : (m.call (m.state s).handler (m.hsmTran k) e).run
              { w with trace := w.trace ++ [.handled s e] } with
          | stop f w₂ =>
              rw [hcall] at hpost
              rw [Prog.run_bind_stop hcall]
              exact ⟨_, .stopped he hcall, hpost⟩
          | ok e' w₂ =>
              rw [hcall] at hpost
              have hparent : (m.state s).parent = some p := hp
              rw [Prog.run_bind_ok hcall, hparent]
              obtain ⟨offers, hoffers, hend⟩ :=
                ih (e := e') hl (by simp only [List.length_cons] at hn; omega) hpost
              rw [List.append_assoc] at hend
              exact ⟨_, .passed he hcall hoffers, hend⟩

/-- `HSM_Create` and then `HSM_Run` on events in order. -/
def session (m : Machine Ref Fn σ ε) (n : ℕ) (initState : Ref) (events : List HsmEvent) :
    HsmProg Ref σ ε Unit := do
  m.createWith n initState
  Prog.runAll (m.runWith n) events

theorem run_session (initState : Ref) (mem : σ) (events : List HsmEvent) :
    (m.session tranFuel initState events).run ⟨initState, false, mem, []⟩ =
      match m.hsmCreate initState mem with
      | .ok _ w => (Prog.runAll m.hsmRun events).run w
      | .stop e w => .stop e w := by
  have hcreate : (m.createWith tranFuel initState).run ⟨initState, false, mem, []⟩ =
      m.hsmCreate initState mem := rfl
  rw [session, Prog.run_bind, hcreate]
  cases m.hsmCreate initState mem with
  | ok _ w => rfl
  | stop e w => rfl

/-- `HSM_Create` opens the initial state and trusts that those above it, `init`, are open. INIT goes
to the state that is current by then. -/
theorem createWith_post (hh : Hierarchy m.state hsmRoot) (hm : m.Tame hsmRoot) {n : ℕ}
    {initState p : Ref} {mem : σ} (hp : (m.state initState).parent = some p)
    (hinit : Climb (parentOf m.state) p init hsmRoot) :
    ((m.createWith n initState).run ⟨initState, false, mem, []⟩).Post
      (fun _ => m.Settled hsmRoot init []) (m.Ended hsmRoot init []) := by
  have hopened : follow m.state hsmRoot init [.notified initState hsmeEntry] =
      some (initState :: init) :=
    have hnil : follow m.state hsmRoot init [] = some init := rfl
    (follow_snoc _ hnil).trans (followOne_entry (by rw [hinit.headD_eq, hp]))
  have hentry : m.Settled hsmRoot init [] ⟨initState, false, mem, [.notified initState hsmeEntry]⟩ :=
    ⟨rfl, ⟨_, hopened, .cons hp hinit⟩, rfl⟩
  simp only [createWith, notify]
  refine Prog.post_bind (Q := fun _ => m.Settled hsmRoot init []) ?_ fun _ w₁ h₁ => ?_
  · exact Prog.post_bind (Q := fun _ => m.Settled hsmRoot init []) hentry fun _ w₁ h₁ =>
      Prog.post_bind (handler_post hh hm n initState _ h₁) fun _ _ h₂ => h₂
  · rw [Prog.run_get_bind]
    refine Prog.post_bind (h₁.observe fun _ => followOne_init) fun _ w₂ h₂ => ?_
    exact Prog.post_bind (handler_post hh hm n w₁.curState _ h₂) fun _ _ h₃ => h₃

theorem runWith_post (hh : Hierarchy m.state hsmRoot) (hm : m.Tame hsmRoot) {n : ℕ} {e : HsmEvent}
    {l : List Ref} (hl : Climb (parentOf m.state) w.curState l hsmRoot)
    (h : m.Settled hsmRoot init calls w) :
    ∃ offers, m.Offered (m.hsmTran n) (l ++ [hsmRoot]) e w offers ((m.runWith n e).run w) ∧
      ((m.runWith n e).run w).Post
        (fun _ => m.Settled hsmRoot init (calls ++ offers)) (m.Ended hsmRoot init (calls ++ offers)) :=
  hsmRunLoop_post hh hm hl (by have := hh.length_lt hl; omega) h

/-- What holds after every session. -/
theorem session_post (hh : Hierarchy m.state hsmRoot) (hm : m.Tame hsmRoot) {initState p : Ref}
    (hp : (m.state initState).parent = some p) (hinit : Climb (parentOf m.state) p init hsmRoot)
    (n : ℕ) (mem : σ) (events : List HsmEvent) :
    ((m.session n initState events).run ⟨initState, false, mem, []⟩).Post
      (fun _ w => ∃ calls, m.Settled hsmRoot init calls w)
      fun f w => ∃ calls, m.Ended hsmRoot init calls f w := by
  have hrun : ∀ e w, (∃ calls, m.Settled hsmRoot init calls w) →
      ((m.runWith n e).run w).Post (fun _ w => ∃ calls, m.Settled hsmRoot init calls w)
        fun f w => ∃ calls, m.Ended hsmRoot init calls f w := by
    rintro e w ⟨calls, h⟩
    obtain ⟨opened, -, hclimb⟩ := h.opened
    obtain ⟨offers, -, hend⟩ := runWith_post (n := n) (e := e) hh hm hclimb h
    exact hend.mono (fun _ _ h' => ⟨_, h'⟩) fun _ _ h' => ⟨_, h'⟩
  rw [session]
  refine Prog.post_bind ((createWith_post hh hm hp hinit).mono (fun _ _ h => h) fun _ _ h => ⟨_, h⟩)
    fun _ w h => ?_
  exact Prog.runAll_post hrun ⟨_, h⟩ events

/-! ### Queries -/

theorem isInStateLoop_eq (hh : Hierarchy m.state hsmRoot) {n : ℕ} {c s : Ref} {l : List Ref}
    (hl : Climb (parentOf m.state) c l hsmRoot) (hn : l.length + 1 < n) :
    m.isInStateLoop s n (some c) = some (decide (s = hsmRoot ∨ s ∈ l)) := by
  induction l generalizing c n with
  | nil =>
      obtain rfl := hl.eq_of_nil
      obtain ⟨n, rfl⟩ : ∃ k, n = k + 2 := ⟨n - 2, by simp only [List.length_nil] at hn; omega⟩
      by_cases hs : s = c <;> simp [isInStateLoop, hs, hh.root]
  | cons a l ih =>
      obtain ⟨n, rfl⟩ : ∃ k, n = k + 1 := ⟨n - 1, by omega⟩
      cases hl with
      | @cons _ p _ _ hp hl =>
          have hparent : (m.state a).parent = some p := hp
          rw [isInStateLoop, hparent, ih hl (by simp only [List.length_cons] at hn; omega)]
          by_cases hs : s = a <;> simp [hs]

theorem hsmIsInState_eq (hh : Hierarchy m.state hsmRoot) {l : List Ref}
    (hl : Climb (parentOf m.state) w.curState l hsmRoot) (s : Ref) :
    m.hsmIsInState w s = some (decide (s = hsmRoot ∨ s ∈ l)) :=
  isInStateLoop_eq hh hl (by have := hh.length_lt hl; omega)

end Machine

end CppJson
