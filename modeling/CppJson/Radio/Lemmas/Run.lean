import CppJson.Radio.Lemmas.Step
import CppJson.Radio.Lemmas.Display

/-!
# Runs

What every call of `DT_Run` keeps, and what therefore holds after any number of them.
-/

namespace CppJson

/-! ## One call -/

/-- The machine is in one of the states of `DT_Init`, with no transition under way. -/
structure Idle (w : RadioWorld) : Prop where
  hsmTran : w.hsmTran = false
  curState : w.curState ≠ .hsmRoot

/-- The three results of a call of `DT_Run`. -/
inductive Ran (e : HsmEvent) (w : RadioWorld) : RadioWorld → Prop where
  | ignored : next w.curState e = none → Ran e w (w.note [] (dispatch (chain w.curState) e).1)
  | moved {t res} : next w.curState e = some t →
      cjsonPrint (displayRoot w.mem.root (stateName t)) = .ok res →
      Ran e w (w.moved e t res.bytes)

/-- The program dies in `Display`. -/
def Died (e : HsmEvent) (w : RadioWorld) (f : Fault RadioFault) (w' : RadioWorld) : Prop :=
  ∃ t why, next w.curState e = some t ∧ cjsonPrint (displayRoot w.mem.root (stateName t)) = .error why ∧
    f = .app (.nullString why) ∧ w' = w.halted e t

theorem dtRun_post {w : RadioWorld} (hidle : w.hsmTran = false) (e : HsmEvent) :
    ((dtRun e).run w).Post (fun _ => Ran e w) (Died e w) := by
  cases h : next w.curState e with
  | none =>
      rw [dtRun_none h]
      exact .ignored h
  | some t =>
      cases hp : cjsonPrint (displayRoot w.mem.root (stateName t)) with
      | ok res =>
          rw [dtRun_ok hidle h hp]
          exact .moved h hp
      | error why =>
          rw [dtRun_error hidle h hp]
          exact ⟨t, why, h, hp, rfl, rfl⟩

theorem dtRun_cases {w : RadioWorld} (hidle : w.hsmTran = false) (e : HsmEvent) :
    (∃ w', (dtRun e).run w = .ok () w' ∧ Ran e w w') ∨ ∃ f w', (dtRun e).run w = .stop f w' ∧
      Died e w f w' := by
  have hpost := dtRun_post hidle e
  cases hrun : (dtRun e).run w with
  | ok _ w' =>
      rw [hrun] at hpost
      exact .inl ⟨w', rfl, hpost⟩
  | stop f w' =>
      rw [hrun] at hpost
      exact .inr ⟨f, w', rfl, hpost⟩

theorem reaction_tran_ne_root {s t : StateRef} {e : HsmEvent} (h : reaction s e = .tran t) :
    t ≠ .hsmRoot := by
  rintro rfl
  cases s with
  | hsmRoot => cases h
  | _ =>
      simp only [reaction, objects, react] at h
      split_ifs at h <;> cases h

theorem dispatch_ne_root {ss : List StateRef} {t : StateRef} {e : HsmEvent}
    (h : (dispatch ss e).2 = some t) :
    t ≠ .hsmRoot := by
  induction ss generalizing e with
  | nil => cases h
  | cons s ss ih =>
      rw [dispatch] at h
      split at h
      · cases h
      · cases hr : reaction s e with
        | tran t' =>
            simp only [hr, Option.some.injEq] at h
            exact h ▸ reaction_tran_ne_root hr
        | pass code =>
            simp only [hr] at h
            exact ih h

theorem Ran.idle {e : HsmEvent} {w w' : RadioWorld} (h : Ran e w w') (hidle : Idle w) : Idle w' := by
  cases h with
  | ignored => exact ⟨hidle.hsmTran, hidle.curState⟩
  | moved hnext => exact ⟨rfl, dispatch_ne_root hnext⟩

/-! ## Transitions -/

theorem transitions_append (t t' : List (Obs StateRef)) :
    transitions (t ++ t') = transitions t ++ transitions t' :=
  List.filterMap_append

/-- Dispatching leaves only handler calls. -/
theorem filterMap_dispatch {β : Type} {f : Obs StateRef → Option β}
    (hf : ∀ s x, f (.handled s x) = none) (ss : List StateRef) (e : HsmEvent) :
    (dispatch ss e).1.filterMap f = [] := by
  induction ss generalizing e with
  | nil => rfl
  | cons s ss ih =>
      rw [dispatch]
      split
      · rfl
      · cases reaction s e with
        | tran t => simp [hf]
        | pass code => simp [hf, ih code]

theorem transitions_dispatch (ss : List StateRef) (e : HsmEvent) : transitions (dispatch ss e).1 = [] :=
  filterMap_dispatch (fun _ _ => rfl) ss e

theorem transitions_busy (cur : StateRef) (e : HsmEvent) (l : List StateRef) :
    transitions (l.flatMap (busyTrace cur e)) = [] := by
  induction l with
  | nil => rfl
  | cons s ss ih =>
      rw [List.flatMap_cons, transitions_append, ih, List.append_nil, busyTrace]
      cases reaction s e <;> rfl

theorem transitions_tranTrace (s : StateRef) (e : HsmEvent) (t : StateRef) :
    transitions (tranTrace s e t) = [(s, t)] := by
  simp only [tranTrace, transitions_append, transitions_dispatch, transitions_busy, List.nil_append]
  rfl

theorem Ran.completed {e : HsmEvent} {w w' : RadioWorld} (h : Ran e w w') :
    transitions w'.trace =
      transitions w.trace ++ ((next w.curState e).map fun t => (w.curState, t)).toList := by
  cases h with
  | ignored hnext => simp [World.note, transitions_append, transitions_dispatch, hnext]
  | moved hnext => simp [World.moved, transitions_append, transitions_tranTrace, hnext]

theorem Ran.curState {e : HsmEvent} {w w' : RadioWorld} (h : Ran e w w') :
    w'.curState = (next w.curState e).getD w.curState := by
  cases h with
  | ignored hnext => rw [hnext]; rfl
  | moved hnext => rw [hnext]; rfl

/-! ## `DT_Init` -/

def initWorld (mem : Memory) : RadioWorld where
  curState := .dtsNormal
  hsmTran := false
  mem := mem
  trace := [.notified .dtsNormal hsmeEntry, .notified .dtsNormal hsmeInit]

theorem notify_pass {s : StateRef} {e code : HsmEvent} (h : reaction s e = .pass code)
    (tran : RadioTran) (w : RadioWorld) :
    (dt.notify tran e s).run w = .ok () (w.note [] [.notified s e]) := by
  simp [Machine.notify, call_eq, Prog.run_bind, observe_eq, h]

theorem dtInit_eq (mem : Memory) : dtInit mem = .ok () (initWorld mem) := by
  have hentry : reaction .dtsNormal hsmeEntry = .pass hsmeEntry := by decide
  have hinit : reaction .dtsNormal hsmeInit = .pass hsmeInit := by decide
  simp only [dtInit, createStates_eq, Machine.hsmCreate, Machine.createWith]
  rw [Prog.run_bind_ok (notify_pass hentry _ _), Prog.run_get_bind, World.curState_note,
    notify_pass hinit]
  simp [World.note, initWorld]

theorem session_eq (mem : Memory) (es : List HsmEvent) :
    session mem es = (Prog.runAll dtRun es).run (initWorld mem) := by
  simp only [session, dtInit_eq]

theorem idle_initWorld (mem : Memory) : Idle (initWorld mem) := ⟨rfl, by simp [initWorld]⟩

/-! ## Many calls -/

/-- The calls of a run that returned, from the first to the last. -/
inductive Steps (w : RadioWorld) : List HsmEvent → RadioWorld → Prop where
  | nil : Steps w [] w
  | snoc {es e w₁ w₂} : Steps w es w₁ → Ran e w₁ w₂ → Steps w (es ++ [e]) w₂

theorem Steps.idle {w w' : RadioWorld} {es : List HsmEvent} (h : Steps w es w') (hidle : Idle w) :
    Idle w' := by
  induction h with
  | nil => exact hidle
  | snoc _ hran ih => exact hran.idle ih

theorem Steps.curState {w w' : RadioWorld} {es : List HsmEvent} (h : Steps w es w') :
    w'.curState = es.foldl (fun s e => (next s e).getD s) w.curState := by
  induction h with
  | nil => rfl
  | snoc _ hran ih =>
      rw [hran.curState, ih, List.foldl_append]
      rfl

theorem ran_of_dtRun {e : HsmEvent} {w w' : RadioWorld} (hidle : Idle w)
    (h : (dtRun e).run w = .ok () w') :
    Ran e w w' := by
  have hpost := dtRun_post hidle.hsmTran e
  rwa [h] at hpost

theorem dtRun_of_ran {e : HsmEvent} {w w' : RadioWorld} (hidle : Idle w) (h : Ran e w w') :
    (dtRun e).run w = .ok () w' := by
  cases h with
  | ignored hnext => exact dtRun_none hnext
  | moved hnext hp => exact dtRun_ok hidle.hsmTran hnext hp

theorem run_snoc {e : HsmEvent} {es : List HsmEvent} {w w' : RadioWorld} :
    (Prog.runAll dtRun (es ++ [e])).run w = .ok () w' ↔
      ∃ w₁, (Prog.runAll dtRun es).run w = .ok () w₁ ∧ (dtRun e).run w₁ = .ok () w' := by
  have hone : ∀ w₁, (Prog.runAll dtRun [e]).run w₁ = (dtRun e).run w₁ := by
    intro w₁
    rw [Prog.runAll_cons, Prog.run_bind]
    cases (dtRun e).run w₁ <;> rfl
  simp only [Prog.run_runAll_append, Prog.run_bind_eq_ok, hone]
  exact ⟨fun ⟨_, w₁, h⟩ => ⟨w₁, h⟩, fun ⟨w₁, h⟩ => ⟨(), w₁, h⟩⟩

theorem steps_of_run {es : List HsmEvent} {w w' : RadioWorld} (hidle : Idle w) :
    (Prog.runAll dtRun es).run w = .ok () w' ↔ Steps w es w' := by
  constructor
  · intro h
    induction es using List.reverseRecOn generalizing w' with
    | nil =>
        simp only [Prog.run_runAll_nil, Outcome.ok.injEq, true_and] at h
        exact h ▸ .nil
    | append_singleton es e ih =>
        obtain ⟨w₁, h₁, h₂⟩ := run_snoc.mp h
        have hsteps := ih h₁
        exact .snoc hsteps (ran_of_dtRun (hsteps.idle hidle) h₂)
  · intro h
    induction h with
    | nil => rfl
    | snoc hsteps hran ih => exact run_snoc.mpr ⟨_, ih, dtRun_of_ran (hsteps.idle hidle) hran⟩

theorem session_eq_ok {mem : Memory} {es : List HsmEvent} {w : RadioWorld} :
    session mem es = .ok () w ↔ Steps (initWorld mem) es w := by
  rw [session_eq, steps_of_run (idle_initWorld mem)]

theorem session_append {mem : Memory} {es es' : List HsmEvent} {w w' : RadioWorld}
    (hw : session mem es = .ok () w) :
    session mem (es ++ es') = .ok () w' ↔ Steps w es' w' := by
  have hidle := (session_eq_ok.mp hw).idle (idle_initWorld mem)
  rw [session_eq] at hw ⊢
  rw [Prog.run_runAll_append, Prog.run_bind_ok hw, steps_of_run hidle]

/-- What holds at first and no longer at the end has been changed by one of the calls. -/
theorem Steps.exists_change {P : RadioWorld → Prop} {w w' : RadioWorld} {es : List HsmEvent}
    (h : Steps w es w') (hw : P w) (hw' : ¬P w') :
    ∃ pre e post w₁ w₂, es = pre ++ e :: post ∧ Steps w pre w₁ ∧ P w₁ ∧ Ran e w₁ w₂ ∧ ¬P w₂ := by
  induction h with
  | nil => exact absurd hw hw'
  | @snoc es e w₁ w₂ hsteps hran ih =>
      by_cases h₁ : P w₁
      · exact ⟨es, e, [], w₁, w₂, rfl, hsteps, h₁, hran, hw'⟩
      · obtain ⟨pre, e', post, v₁, v₂, rfl, hpre, hv₁, hran', hv₂⟩ := ih h₁
        exact ⟨pre, e', post ++ [e], v₁, v₂, by simp, hpre, hv₁, hran', hv₂⟩

/-- A run that does not return has died in one of its calls. -/
theorem session_eq_stop {mem : Memory} {es : List HsmEvent} {f : Fault RadioFault} {w : RadioWorld}
    (h : session mem es = .stop f w) :
    ∃ pre e post w₁, es = pre ++ e :: post ∧ Steps (initWorld mem) pre w₁ ∧
      (dtRun e).run w₁ = .stop f w ∧
      Died e w₁ f w := by
  rw [session_eq] at h
  obtain ⟨pre, e, post, w₁, hes, hpre, hstop⟩ := Prog.runAll_eq_stop h
  have hsteps := (steps_of_run (idle_initWorld mem)).mp hpre
  have hpost := dtRun_post (hsteps.idle (idle_initWorld mem)).hsmTran e
  rw [hstop] at hpost
  exact ⟨pre, e, post, w₁, hes, hsteps, hstop, hpost⟩

/-! ## Runs that do not die -/

structure Ready (w : RadioWorld) : Prop extends Idle w where
  root : ∃ root, w.mem.root = some root ∧ root.Printable

theorem Ran.ready {e : HsmEvent} {w w' : RadioWorld} (h : Ran e w w') (hw : Ready w) : Ready w' := by
  refine ⟨h.idle hw.toIdle, ?_⟩
  obtain ⟨root, hroot, hp⟩ := hw.root
  cases h with
  | ignored => exact ⟨root, hroot, hp⟩
  | moved => exact ⟨_, by rw [World.moved, hroot, displayRoot_eq], printable_record hp _⟩

theorem dtRun_ready {w : RadioWorld} (hw : Ready w) (e : HsmEvent) :
    ((dtRun e).run w).Post (fun _ => Ready) fun f _ => f = .app (.nullString .bufferRefused) := by
  refine (dtRun_post hw.hsmTran e).mono (fun _ w' h => h.ready hw) ?_
  rintro f w' ⟨t, why, -, hprint, rfl, -⟩
  obtain ⟨root, hroot, hp⟩ := hw.root
  rw [hroot, displayRoot_eq] at hprint
  rw [((print_eq_error (printable_record hp _) true why).mp hprint).2]

theorem ready_initWorld {mem : Memory} {root : Item} (hroot : mem.root = some root)
    (hp : root.Printable) :
    Ready (initWorld mem) := ⟨idle_initWorld mem, root, hroot, hp⟩

theorem session_ready {mem : Memory} {root : Item} (hroot : mem.root = some root) (hp : root.Printable)
    (es : List HsmEvent) :
    (session mem es).Post (fun _ => Ready) fun f _ => f = .app (.nullString .bufferRefused) := by
  rw [session_eq]
  exact Prog.runAll_post (fun e w hw => dtRun_ready hw e) (ready_initWorld hroot hp) es

/-- With enough memory every run over a parsed document returns. -/
theorem session_returns {mem : Memory} {root : Item} {es : List HsmEvent}
    (hroot : mem.root = some root) (hp : root.Printable) (hfit : BufferSuffices (session mem es)) :
    ∃ w, session mem es = .ok () w := by
  have hpost := session_ready hroot hp es
  cases h : session mem es with
  | ok _ w => exact ⟨w, rfl⟩
  | stop f w =>
      rw [h] at hpost hfit
      exact absurd (congrArg (fun f => Outcome.stop f w) hpost) (hfit w)

/-! ## The document and the file -/

structure SameDoc (w w' : RadioWorld) : Prop where
  curState : w'.curState = w.curState
  root : w'.mem.root = w.mem.root
  file : w'.mem.file = w.mem.file
  writes : w'.mem.writes = w.mem.writes
  displayed : w'.mem.displayed = w.mem.displayed

/-- The document and the file behind a transition out of `w`. -/
structure Recorded (w w' : RadioWorld) : Prop where
  root : w'.mem.root = displayRoot w.mem.root (stateName w'.curState)
  file : ∃ res, cjsonPrint w'.mem.root = .ok res ∧
    w'.mem.file = ((w.mem.writes.headD .complete).save res.bytes w.mem.file).1
  writes : w'.mem.writes = w.mem.writes.tail
  displayed : w'.mem.displayed = w.mem.displayed ++ [stateName w'.curState]

theorem SameDoc.trans {w w' w'' : RadioWorld} (h : SameDoc w w') (h' : SameDoc w' w'') :
    SameDoc w w'' :=
  ⟨h'.curState.trans h.curState, h'.root.trans h.root, h'.file.trans h.file, h'.writes.trans h.writes,
    h'.displayed.trans h.displayed⟩

theorem Recorded.same {w w' w'' : RadioWorld} (h : Recorded w w') (h' : SameDoc w' w'') :
    Recorded w w'' where
  root := by rw [h'.root, h.root, h'.curState]
  file := by
    obtain ⟨res, hprint, hfile⟩ := h.file
    exact ⟨res, by rw [h'.root, hprint], by rw [h'.file, hfile]⟩
  writes := by rw [h'.writes, h.writes]
  displayed := by rw [h'.displayed, h.displayed, h'.curState]

/-- An event changes nothing, or it completes a transition and records the new state. -/
theorem Ran.doc {e : HsmEvent} {w w' : RadioWorld} (h : Ran e w w') :
    (transitions w'.trace = transitions w.trace ∧ SameDoc w w') ∨
    (transitions w'.trace = transitions w.trace ++ [(w.curState, w'.curState)] ∧ Recorded w w') := by
  have htrans := h.completed
  cases h with
  | ignored hnext =>
      rw [hnext] at htrans
      exact .inl ⟨by simpa using htrans, rfl, rfl, rfl, rfl, rfl⟩
  | @moved t res hnext hp =>
      rw [hnext] at htrans
      exact .inr ⟨htrans, rfl, ⟨res, hp, rfl⟩, rfl, rfl⟩

/-- The last transition of a run, if there was one. -/
theorem Steps.doc {w w' : RadioWorld} {es : List HsmEvent} (h : Steps w es w') :
    (transitions w'.trace = transitions w.trace ∧ SameDoc w w') ∨
    (transitions w'.trace ≠ [] ∧ ∃ es₁ w₁, Steps w es₁ w₁ ∧ Recorded w₁ w') := by
  induction h with
  | nil => exact .inl ⟨rfl, rfl, rfl, rfl, rfl, rfl⟩
  | @snoc es e w₁ w₂ hsteps hran ih =>
      rcases hran.doc with ⟨htrans, hsame⟩ | ⟨htrans, hrec⟩
      · rcases ih with ⟨htrans', hsame'⟩ | ⟨hne, es₁, w₀, hsteps₀, hrec₀⟩
        · exact .inl ⟨htrans.trans htrans', hsame'.trans hsame⟩
        · exact .inr ⟨by rwa [htrans], es₁, w₀, hsteps₀, hrec₀.same hsame⟩
      · exact .inr ⟨by simp [htrans], es, w₁, hsteps, hrec⟩

theorem steps_untouched {mem : Memory} {es : List HsmEvent} {w : RadioWorld}
    (h : Steps (initWorld mem) es w) (hnone : transitions w.trace = []) :
    SameDoc (initWorld mem) w := by
  rcases h.doc with ⟨-, hsame⟩ | ⟨hne, -⟩
  · exact hsame
  · exact absurd hnone hne

theorem steps_recorded {mem : Memory} {es : List HsmEvent} {w : RadioWorld}
    (h : Steps (initWorld mem) es w) (hsome : transitions w.trace ≠ []) :
    ∃ es₁ w₁, Steps (initWorld mem) es₁ w₁ ∧ Recorded w₁ w := by
  rcases h.doc with ⟨htrans, -⟩ | ⟨-, hrec⟩
  · exact absurd htrans hsome
  · exact hrec

theorem steps_writes {mem : Memory} {es : List HsmEvent} {w : RadioWorld}
    (h : Steps (initWorld mem) es w) (hw : mem.writes = []) : w.mem.writes = [] := by
  induction h with
  | nil => exact hw
  | snoc _ hran ih =>
      rcases hran.doc with ⟨-, hsame⟩ | ⟨-, hrec⟩
      · rw [hsame.writes, ih]
      · rw [hrec.writes, ih]; rfl

theorem Recorded.saved {w w' : RadioWorld} (h : Recorded w w') (hw : w.mem.writes = []) :
    ∃ res, cjsonPrint w'.mem.root = .ok res ∧ w'.mem.file = some res.bytes := by
  obtain ⟨res, hprint, hfile⟩ := h.file
  exact ⟨res, hprint, by rw [hfile, hw]; rfl⟩

/-- The members of the document at any point of a run: those found, or those with the current state
recorded. -/
theorem steps_root {mem : Memory} {root : Item} {es : List HsmEvent} {w : RadioWorld}
    (h : Steps (initWorld mem) es w) (hroot : mem.root = some root) (hfirst : FirstNotNull root.child) :
    (transitions w.trace = [] → w.mem.root = some root) ∧
    (transitions w.trace ≠ [] →
      w.mem.root = some (root.withChild (record (stateName w.curState) root.child))) := by
  induction h with
  | nil => exact ⟨fun _ => hroot, fun h => absurd rfl h⟩
  | @snoc es e w₁ w₂ hsteps hran ih =>
      rcases hran.doc with ⟨htrans, hsame⟩ | ⟨htrans, hrec⟩
      · rw [htrans, hsame.root, hsame.curState]
        exact ih
      · refine ⟨fun h => by simp [htrans] at h, fun _ => ?_⟩
        rw [hrec.root]
        by_cases hnone : transitions w₁.trace = []
        · rw [ih.1 hnone, displayRoot_eq]
        · rw [ih.2 hnone, displayRoot_eq]
          simp [record_record hfirst]

/-! ## Runs of the program -/

theorem dtRun_null {w : RadioWorld} (hidle : Idle w) (hroot : w.mem.root = none) (e : HsmEvent) :
    ((dtRun e).run w).Post (fun _ w' => Idle w' ∧ w'.mem.root = none) fun f _ =>
      f = .app (.nullString .notPrintable) := by
  refine (dtRun_post hidle.hsmTran e).mono (fun _ w' hran => ⟨hran.idle hidle, ?_⟩) ?_
  · cases hran with
    | ignored => exact hroot
    | moved _ hprint =>
        rw [hroot, displayRoot_none] at hprint
        cases hprint
  · rintro f w' ⟨t, why, -, hprint, rfl, -⟩
    rw [hroot, displayRoot_none, cjsonPrint, Except.error.injEq] at hprint
    rw [hprint]

/-- A run of the program returns, or it dies for want of a document or of memory. -/
theorem session_post (file : Option (List UInt8)) (writes : List WriteOutcome) (es : List HsmEvent) :
    (session (loadMemory file writes) es).Post
      (fun _ w => Steps (initWorld (loadMemory file writes)) es w) fun f _ =>
        f = .app (.nullString .bufferRefused) ∨
          (cjsonParse (cstr (readFile file).2) = none ∧ f = .app (.nullString .notPrintable)) := by
  have hdies : (session (loadMemory file writes) es).Post (fun _ _ => True) fun f _ =>
      f = .app (.nullString .bufferRefused) ∨
        (cjsonParse (cstr (readFile file).2) = none ∧ f = .app (.nullString .notPrintable)) := by
    cases hparse : cjsonParse (cstr (readFile file).2) with
    | none =>
        have hrun :=
          Prog.runAll_post (fun e w (hw : Idle w ∧ w.mem.root = none) => dtRun_null hw.1 hw.2 e)
            ⟨idle_initWorld (loadMemory file writes), hparse⟩ es
        rw [session_eq]
        exact hrun.mono (fun _ _ _ => trivial) fun f _ h => .inr ⟨rfl, h⟩
    | some root =>
        have hrun := session_ready ((root_loadMemory file writes).trans hparse)
          (wellFormed_of_cjsonParse hparse).1.printable es
        exact hrun.mono (fun _ _ _ => trivial) fun f _ h => .inl h
  cases h : session (loadMemory file writes) es with
  | ok _ w => exact session_eq_ok.mp h
  | stop f w => rwa [h] at hdies

/-! ## Enough memory -/

/-- The document is the one found, or that one with a state recorded. -/
def Holds (root : Item) (w : RadioWorld) : Prop :=
  w.mem.root = some root ∨ ∃ s, w.mem.root = some (root.withChild (record (stateName s) root.child))

theorem Holds.displayRoot {root : Item} {w : RadioWorld} (h : Holds root w)
    (hfirst : FirstNotNull root.child) (t : StateRef) :
    CppJson.displayRoot w.mem.root (stateName t) =
      some (root.withChild (record (stateName t) root.child)) := by
  rcases h with h | ⟨s, h⟩
  · rw [h, displayRoot_eq]
  · rw [h, displayRoot_eq]
    simp [record_record hfirst]

/-- Memory suffices for every run over a document that leaves room for the name of each state. -/
theorem bufferSuffices_of_fits {mem : Memory} {root : Item} (hroot : mem.root = some root)
    (hp : root.Printable) (hfirst : FirstNotNull root.child)
    (hfits : ∀ s, (render true 0 (root.withChild (record (stateName s) root.child))).length + 2 ≤
      intMax)
    (es : List HsmEvent) : BufferSuffices (session mem es) := by
  have hstep : ∀ e w, (Idle w ∧ Holds root w) →
      ((dtRun e).run w).Post (fun _ w' => Idle w' ∧ Holds root w') fun _ _ => False := by
    rintro e w ⟨hidle, hdoc⟩
    refine (dtRun_post hidle.hsmTran e).mono (fun _ w' hran => ⟨hran.idle hidle, ?_⟩) ?_
    · cases hran with
      | ignored => exact hdoc
      | @moved t => exact .inr ⟨t, hdoc.displayRoot hfirst t⟩
    · rintro f w' ⟨t, why, -, hprint, -, -⟩
      rw [hdoc.displayRoot hfirst t] at hprint
      have hlarge := ((print_eq_error (printable_record hp _) true why).mp hprint).1
      have hsmall := hfits t
      omega
  have hrun := Prog.runAll_post hstep ⟨idle_initWorld mem, .inl hroot⟩ es
  intro w h
  rw [session_eq] at h
  rwa [h] at hrun

def emptyObject : Item := .mk .object none []

theorem cjsonParse_emptyObject : cjsonParse (cstr (ascii "\x7b\x7d")) = some emptyObject := rfl

theorem bufferSuffices_emptyObject (writes : List WriteOutcome) (es : List HsmEvent) :
    BufferSuffices (session (loadMemory (some (ascii "\x7b\x7d")) writes) es) := by
  have hroot : (loadMemory (some (ascii "\x7b\x7d")) writes).root = some emptyObject :=
    cjsonParse_emptyObject
  refine bufferSuffices_of_fits hroot (.mk (by simp) (by simp))
    (by simp [FirstNotNull, emptyObject]) (fun s => ?_) es
  cases s <;> decide

end CppJson
