import CppJson.Radio.Lemmas.Run

/-!
# What the handlers are told

Each call of `DT_Run` sends EXIT to the state it leaves and ENTRY to the one it enters
(`Ran.notices`). Dispatching passes the event itself to the handlers of the chain, until a handler
returns another code.
-/

namespace CppJson

/-! ## The trace of a call -/

theorem newTrace_of_eq {w : RadioWorld} {e : HsmEvent} {new : List (Obs StateRef)}
    (h : ((dtRun e).run w).state.trace = w.trace ++ new) : newTrace w e = new := by
  rw [newTrace, h, List.drop_left]

theorem newTrace_of_ran {e : HsmEvent} {w w' : RadioWorld} (hidle : Idle w) (h : Ran e w w') :
    newTrace w e =
      match next w.curState e with
      | none => (dispatch (chain w.curState) e).1
      | some t => tranTrace w.curState e t := by
  refine newTrace_of_eq ?_
  rw [dtRun_of_ran hidle h, Outcome.state_ok]
  cases h with
  | ignored hnext => simp [World.note, hnext]
  | moved hnext => simp [World.moved, hnext]

theorem newTrace_of_died {e : HsmEvent} {w w' : RadioWorld} {f : Fault RadioFault} (hidle : Idle w)
    (h : Died e w f w') :
    ∃ t, next w.curState e = some t ∧
      newTrace w e = (dispatch (chain w.curState) e).1 ++
        (exitList w.curState t).flatMap (busyTrace w.curState hsmeExit) := by
  obtain ⟨t, why, hnext, hprint, -, -⟩ := h
  refine ⟨t, hnext, newTrace_of_eq ?_⟩
  rw [dtRun_error hidle.hsmTran hnext hprint, Outcome.state_stop]
  rfl

theorem handled_notMem_busy (cur : StateRef) (e : HsmEvent) (l : List StateRef) (s : StateRef)
    (x : HsmEvent) :
    .handled s x ∉ l.flatMap (busyTrace cur e) := by
  intro hmem
  obtain ⟨r, -, hr⟩ := List.mem_flatMap.mp hmem
  rw [busyTrace] at hr
  cases h : reaction r e <;> simp [h] at hr

/-- Only dispatching passes events to handlers by `HSM_Run`. -/
theorem newTrace_dispatch {w : RadioWorld} (hidle : Idle w) (e : HsmEvent) :
    ∃ rest, newTrace w e = (dispatch (chain w.curState) e).1 ++ rest ∧ ∀ s x, .handled s x ∉ rest := by
  rcases dtRun_cases hidle.hsmTran e with ⟨w', -, hran⟩ | ⟨f, w', -, hdied⟩
  · rw [newTrace_of_ran hidle hran]
    cases next w.curState e with
    | none => exact ⟨[], (List.append_nil _).symm, fun _ _ => List.not_mem_nil⟩
    | some t =>
        refine ⟨_, by simp only [tranTrace, List.append_assoc]; rfl, fun s x => ?_⟩
        simp only [List.mem_append, handled_notMem_busy, false_or]
        simp
  · obtain ⟨t, -, hnew⟩ := newTrace_of_died hidle hdied
    exact ⟨_, hnew, handled_notMem_busy _ _ _⟩

theorem trace_newTrace {w : RadioWorld} (hidle : Idle w) (e : HsmEvent) :
    ((dtRun e).run w).state.trace = w.trace ++ newTrace w e := by
  have hprefix : ∃ new, ((dtRun e).run w).state.trace = w.trace ++ new := by
    rcases dtRun_cases hidle.hsmTran e with ⟨w', hrun, hran⟩ | ⟨f, w', hrun, t, why, -, -, -, rfl⟩
    · rw [hrun, Outcome.state_ok]
      cases hran with
      | ignored => exact ⟨_, rfl⟩
      | moved => exact ⟨_, rfl⟩
    · rw [hrun, Outcome.state_stop]
      exact ⟨_, rfl⟩
  obtain ⟨new, hnew⟩ := hprefix
  rw [newTrace_of_eq hnew, hnew]

theorem Ran.trace {e : HsmEvent} {w w' : RadioWorld} (h : Ran e w w') (hidle : Idle w) :
    w'.trace = w.trace ++ newTrace w e := by
  rw [← trace_newTrace hidle, dtRun_of_ran hidle h, Outcome.state_ok]

/-! ## ENTRY and EXIT -/

theorem notices_append (s : StateRef) (t t' : List (Obs StateRef)) :
    notices s (t ++ t') = notices s t ++ notices s t' :=
  List.filterMap_append

theorem received_append (s : StateRef) (t t' : List (Obs StateRef)) :
    received s (t ++ t') = received s t ++ received s t' :=
  List.filterMap_append

theorem notices_dispatch (s : StateRef) (ss : List StateRef) (e : HsmEvent) :
    notices s (dispatch ss e).1 = [] :=
  filterMap_dispatch (fun _ _ => rfl) ss e

theorem notices_busyTrace (r cur s : StateRef) {e : HsmEvent} (he : e = hsmeEntry ∨ e = hsmeExit) :
    notices r (busyTrace cur e s) = if s = r then [e] else [] := by
  have hone : notices r [.notified s e] = if s = r then [e] else [] := by
    by_cases hs : s = r <;> simp [notices, hs, he]
  rw [busyTrace]
  cases reaction s e with
  | pass code => exact hone
  | tran t => exact hone

theorem notices_busy (r cur : StateRef) {e : HsmEvent} (he : e = hsmeEntry ∨ e = hsmeExit)
    {l : List StateRef} (hl : l.Nodup) :
    notices r (l.flatMap (busyTrace cur e)) = if r ∈ l then [e] else [] := by
  induction l with
  | nil => rfl
  | cons s ss ih =>
      obtain ⟨hs, hss⟩ := List.nodup_cons.mp hl
      rw [List.flatMap_cons, notices_append, notices_busyTrace r cur s he, ih hss]
      by_cases hr : s = r
      · subst hr
        simp [hs]
      · simp [hr, Ne.symm hr]

theorem nodup_exitList (s t : StateRef) : (exitList s t).Nodup := by
  cases s <;> cases t <;> decide

theorem nodup_entryList (s t : StateRef) : (entryList s t).Nodup := by
  cases s <;> cases t <;> decide

theorem innermost_cases {r : StateRef} (hr : r ∈ innermost) :
    r = .dtsNormalN1 ∨ r = .dtsNormalN2 ∨ r = .dtsDamage ∨ r = .dtsMaintenance := by
  simpa [innermost] using hr

theorem mem_exitList {r s t : StateRef} (hr : r ∈ innermost) : r ∈ exitList s t ↔ s = r ∧ t ≠ r := by
  rcases innermost_cases hr with rfl | rfl | rfl | rfl <;> cases s <;> cases t <;> decide

theorem mem_entryList {r s t : StateRef} (hr : r ∈ innermost) : r ∈ entryList s t ↔ s ≠ r ∧ t = r := by
  rcases innermost_cases hr with rfl | rfl | rfl | rfl <;> cases s <;> cases t <;> decide

theorem notices_exit {r s t : StateRef} (hr : r ∈ innermost) :
    notices r ((exitList s t).flatMap (busyTrace s hsmeExit)) =
      if s = r ∧ t ≠ r then [hsmeExit] else [] := by
  rw [notices_busy r s (.inr rfl) (nodup_exitList s t)]
  simp only [mem_exitList hr]

theorem notices_entry {r s t : StateRef} (hr : r ∈ innermost) :
    notices r ((entryList s t).flatMap (busyTrace s hsmeEntry)) =
      if s ≠ r ∧ t = r then [hsmeEntry] else [] := by
  rw [notices_busy r s (.inl rfl) (nodup_entryList s t)]
  simp only [mem_entryList hr]

theorem notices_tranTrace {r s t : StateRef} (hr : r ∈ innermost) (e : HsmEvent) :
    notices r (tranTrace s e t) =
      if s = r ∧ t ≠ r then [hsmeExit] else if s ≠ r ∧ t = r then [hsmeEntry] else [] := by
  have hlast : notices r [Obs.completed s t, Obs.notified t hsmeInit] = [] := by
    have hne : ¬(hsmeInit = hsmeEntry ∨ hsmeInit = hsmeExit) := by decide
    simp [notices, hne]
  simp only [tranTrace, notices_append, notices_dispatch, notices_exit hr, notices_entry hr, hlast,
    List.nil_append, List.append_nil]
  by_cases hs : s = r <;> simp [hs]

/-- A state is sent EXIT once when it is left, ENTRY once when it is entered, and nothing
otherwise. -/
theorem Ran.notices {e : HsmEvent} {w w' : RadioWorld} (h : Ran e w w') (hidle : Idle w) {r : StateRef}
    (hr : r ∈ innermost) :
    CppJson.notices r (newTrace w e) =
      if w.curState = r ∧ w'.curState ≠ r then [hsmeExit]
      else if w.curState ≠ r ∧ w'.curState = r then [hsmeEntry]
      else [] := by
  rw [newTrace_of_ran hidle h]
  cases h with
  | ignored hnext =>
      rw [hnext]
      simp [notices_dispatch]
  | moved hnext =>
      rw [hnext]
      exact notices_tranTrace hr e

theorem Died.notices {e : HsmEvent} {w w' : RadioWorld} {f : Fault RadioFault} (h : Died e w f w')
    (hidle : Idle w) {r : StateRef} (hr : r ∈ innermost) :
    CppJson.notices r (newTrace w e) = [] ∨
      w.curState = r ∧ CppJson.notices r (newTrace w e) = [hsmeExit] := by
  obtain ⟨t, -, hnew⟩ := newTrace_of_died hidle h
  rw [hnew, notices_append, notices_dispatch, notices_exit hr, List.nil_append]
  split_ifs with hcur
  · exact .inr ⟨hcur.1, rfl⟩
  · exact .inl rfl

/-! ## What a handler receives -/

theorem received_of_not_handled (r : StateRef) {t : List (Obs StateRef)}
    (ht : ∀ s x, .handled s x ∉ t) :
    received r t = notices r t := by
  refine List.filterMap_congr fun o ho => ?_
  cases o with
  | handled s x => exact absurd ho (ht s x)
  | notified | rejected | completed => rfl

theorem received_handled (r s : StateRef) (e : HsmEvent) (rest : List (Obs StateRef)) :
    received r (.handled s e :: rest) =
      (if s = r ∧ (e = hsmeEntry ∨ e = hsmeExit) then [e] else []) ++ received r rest := by
  by_cases h : s = r ∧ (e = hsmeEntry ∨ e = hsmeExit) <;> simp [received, h]

theorem received_of_notMem {r : StateRef} {ss : List StateRef} (hr : r ∉ ss) (e : HsmEvent) :
    received r (dispatch ss e).1 = [] := by
  induction ss generalizing e with
  | nil => rfl
  | cons s ss ih =>
      obtain ⟨hs, hss⟩ := not_or.mp (mt List.mem_cons.mpr hr)
      have hnot : ¬(s = r ∧ (e = hsmeEntry ∨ e = hsmeExit)) := fun h => hs h.1.symm
      rw [dispatch]
      split
      · rfl
      · cases reaction s e with
        | tran t => rw [received_handled, if_neg hnot]; rfl
        | pass code => rw [received_handled, if_neg hnot, ih hss code]; rfl

theorem received_dispatch {r : StateRef} (hr : r ∈ innermost) (s : StateRef) (e : HsmEvent) :
    received r (dispatch (chain s) e).1 =
      if s = r ∧ (e = hsmeEntry ∨ e = hsmeExit) then [e] else [] := by
  have habove : r ∉ ((objects s).parent.map chain).getD [] := by
    rcases innermost_cases hr with rfl | rfl | rfl | rfl <;> cases s <;> decide
  rw [chain_eq, dispatch]
  by_cases h0 : e = hsmeNull
  · subst h0
    have hne : ¬(hsmeNull = hsmeEntry ∨ hsmeNull = hsmeExit) := by decide
    rw [if_pos rfl, if_neg fun h => hne h.2]
    rfl
  rw [if_neg h0]
  cases reaction s e with
  | tran t =>
      rw [received_handled]
      exact List.append_nil _
  | pass code => rw [received_handled, received_of_notMem habove code, List.append_nil]

/-- Besides what it is sent, an innermost state receives the event itself, when it is the current
state. -/
theorem received_newTrace {w : RadioWorld} (hidle : Idle w) (e : HsmEvent) {r : StateRef}
    (hr : r ∈ innermost) :
    received r (newTrace w e) =
      (if w.curState = r ∧ (e = hsmeEntry ∨ e = hsmeExit) then [e] else []) ++
        notices r (newTrace w e) := by
  obtain ⟨rest, hnew, hrest⟩ := newTrace_dispatch hidle e
  rw [hnew, received_append, notices_append, received_dispatch hr, notices_dispatch,
    received_of_not_handled r hrest, List.nil_append]

/-! ## The events that are passed on -/

/-- A handler that returns consumes the event or returns it, but DTS_NORMAL_N1 answers a fault or
maintenance with `EXIT_FAILURE`. -/
theorem reaction_pass {s : StateRef} {e code : HsmEvent} (h : reaction s e = .pass code) :
    code = hsmeNull ∨ code = e ∨ (s = .dtsNormalN1 ∧ (e = dteError ∨ e = dteMaintain)) := by
  have hjoin : exitFailure = dteJoin := rfl
  cases s with
  | hsmRoot => exact .inl (Reaction.pass.inj h).symm
  | dtsNormalN1 =>
      simp only [reaction, objects, react] at h
      split_ifs at h with h₁ h₂ h₃ <;> cases h
      · exact .inr (.inr ⟨rfl, h₃⟩)
      · exact .inr (.inl rfl)
  | _ =>
      simp only [reaction, objects, react] at h
      split_ifs at h <;> cases h <;> simp_all

theorem reaction_of_call {tran : RadioTran} {s : StateRef} {e code : HsmEvent} {v v' : RadioWorld}
    (h : (dt.call (dt.state s).handler tran e).run v = .ok code v') :
    reaction s e = .pass code ∨ code = hsmeNull := by
  rw [call_eq] at h
  cases hr : reaction s e with
  | pass c =>
      simp only [hr, Prog.run_pure, Outcome.ok.injEq] at h
      exact .inl (congrArg Reaction.pass h.1)
  | tran t =>
      simp only [hr, Prog.run_bind_eq_ok, Prog.run_pure, Outcome.ok.injEq] at h
      obtain ⟨_, _, -, hcode, -⟩ := h
      exact .inr hcode.symm

/-- While no handler of a chain replaces the event, all of them receive it. -/
theorem handled_dispatch {ss : List StateRef} {e x : HsmEvent} {s : StateRef}
    (hkeep : ∀ r ∈ ss, ∀ code, reaction r e = .pass code → code = hsmeNull ∨ code = e)
    (hmem : .handled s x ∈ (dispatch ss e).1) : s ∈ ss ∧ x = e := by
  induction ss with
  | nil => cases hmem
  | cons c ss ih =>
      have hkeep' : ∀ r ∈ ss, ∀ code, reaction r e = .pass code → code = hsmeNull ∨ code = e :=
        fun r hr => hkeep r (List.mem_cons_of_mem c hr)
      rw [dispatch] at hmem
      split at hmem
      · cases hmem
      cases hr : reaction c e with
      | tran t =>
          simp only [hr, List.mem_singleton, Obs.handled.injEq] at hmem
          exact ⟨hmem.1 ▸ List.mem_cons_self, hmem.2⟩
      | pass code =>
          simp only [hr, List.mem_cons, Obs.handled.injEq] at hmem
          rcases hmem with ⟨rfl, rfl⟩ | hmem
          · exact ⟨List.mem_cons_self, rfl⟩
          rcases hkeep c List.mem_cons_self code hr with rfl | rfl
          · cases ss <;> simp [dispatch] at hmem
          · exact (ih hkeep' hmem).imp_left (List.mem_cons_of_mem c)

theorem n1_mem_chain {s : StateRef} : .dtsNormalN1 ∈ chain s ↔ s = .dtsNormalN1 := by
  cases s <;> decide

/-- Dispatching keeps an event unless it is a fault or maintenance in DTS_NORMAL_N1. -/
theorem keepsEvent_iff {w : RadioWorld} (hidle : Idle w) (e : HsmEvent) :
    KeepsEvent w e ↔ ¬(w.curState = .dtsNormalN1 ∧ (e = dteError ∨ e = dteMaintain)) := by
  obtain ⟨rest, hnew, hrest⟩ := newTrace_dispatch hidle e
  constructor
  · rintro hkeeps ⟨hcur, he⟩
    have hmem : .handled .dtsNormal dteJoin ∈ newTrace w e := by
      rw [hnew, hcur]
      refine List.mem_append_left _ ?_
      rcases he with rfl | rfl <;> decide
    have hjoin : dteJoin = e := (hkeeps _ _ hmem).1
    rcases he with rfl | rfl <;> exact absurd hjoin (by decide)
  · intro hnot s x hmem
    have hkeep : ∀ r ∈ chain w.curState, ∀ code, reaction r e = .pass code →
        code = hsmeNull ∨ code = e := by
      intro r hr code hpass
      rcases reaction_pass hpass with h | h | ⟨rfl, he⟩
      · exact .inl h
      · exact .inr h
      · exact absurd ⟨n1_mem_chain.mp hr, he⟩ hnot
    rw [hnew] at hmem
    obtain ⟨hs, rfl⟩ := handled_dispatch hkeep ((List.mem_append.mp hmem).resolve_right (hrest s x))
    refine ⟨rfl, fun tran v v' code hcall => ?_⟩
    rcases reaction_of_call hcall with hpass | hnull
    · exact hkeep s hs code hpass
    · exact .inl hnull

/-! ## Alternation -/

theorem Alternate.exit {l : List HsmEvent} (h : Alternate l) (hlast : l.getLast? = some hsmeEntry) :
    Alternate (l ++ [hsmeExit]) := by
  refine ⟨fun e he => h.1 e ?_, List.isChain_append.mpr ⟨h.2, List.isChain_singleton _, ?_⟩⟩
  · cases l with
    | nil => cases hlast
    | cons x xs => exact he
  · rintro x hx y hy
    simp only [hlast, Option.mem_def, Option.some.injEq, List.head?_cons] at hx hy
    rw [← hx, ← hy]
    decide

theorem Alternate.entry {l : List HsmEvent} (h : Alternate l) (hlast : l.getLast? ≠ some hsmeEntry) :
    Alternate (l ++ [hsmeEntry]) := by
  refine ⟨fun e he => ?_, List.isChain_append.mpr ⟨h.2, List.isChain_singleton _, ?_⟩⟩
  · cases l with
    | nil => simpa using he.symm
    | cons x xs => exact h.1 e he
  · rintro x hx y hy
    simp only [Option.mem_def, List.head?_cons, Option.some.injEq] at hx hy
    rintro rfl
    exact hlast (hy ▸ hx)

/-! ## Whole runs -/

/-- What an innermost state is sent alternates, and ended with ENTRY when it is the current
state. -/
theorem Steps.alternate {mem : Memory} {es : List HsmEvent} {w : RadioWorld}
    (h : Steps (initWorld mem) es w) {r : StateRef} (hr : r ∈ innermost) :
    Alternate (notices r w.trace) ∧ ((notices r w.trace).getLast? = some hsmeEntry ↔
      w.curState = r) := by
  induction h with
  | nil =>
      rcases innermost_cases hr with rfl | rfl | rfl | rfl <;> simp [initWorld,
        CppJson.notices, Alternate]
  | @snoc es e w₁ w₂ hsteps hran ih =>
      have hidle := hsteps.idle (idle_initWorld mem)
      obtain ⟨halt, hlast⟩ := ih
      rw [hran.trace hidle, notices_append, hran.notices hidle hr]
      by_cases hcur : w₁.curState = r
      · by_cases hnew : w₂.curState = r
        · simp [hcur, hnew, halt, hlast]
        · rw [if_pos ⟨hcur, hnew⟩]
          refine ⟨halt.exit (hlast.mpr hcur), ?_⟩
          have hne : hsmeExit ≠ hsmeEntry := by decide
          simp [hne, hnew]
      · by_cases hnew : w₂.curState = r
        · rw [if_neg fun h => hcur h.1, if_pos ⟨hcur, hnew⟩]
          refine ⟨halt.entry (mt hlast.mp hcur), ?_⟩
          simp [hnew]
        · simp [hcur, hnew, halt, hlast]

end CppJson
