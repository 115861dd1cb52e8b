import CppJson.Radio.Lemmas.Diagram
import CppJson.Radio.Lemmas.Log
import CppJson.Radio.Lemmas.Notices

/-!
# What an event does

The results about single events after any run: the transition taken, the box of the state diagram,
the outcome of the write, the log, what the handlers are told, the way back to work, and the events
that are passed on.
-/

namespace CppJson

/-! ## A document at hand -/

theorem printable_of_cjsonParse {value : CStr} {root : Item} (h : cjsonParse value = some root) :
    root.Printable :=
  (wellFormed_of_cjsonParse h).1.printable

/-- A run over a parsed file with one more event: both parts return when the whole does not lack a
buffer. -/
theorem session_snoc_returns {text : List UInt8} {root : Item} {writes : List WriteOutcome}
    {es : List HsmEvent} {e : HsmEvent} (hparse : cjsonParse (cstr text) = some root)
    (hfit : BufferSuffices (session (loadMemory (some text) writes) (es ++ [e]))) :
    ∃ w w', session (loadMemory (some text) writes) es = .ok () w ∧ (dtRun e).run w = .ok () w' ∧
      Steps (initWorld (loadMemory (some text) writes)) es w ∧ Ran e w w' := by
  have hroot : (loadMemory (some text) writes).root = some root := hparse
  obtain ⟨w', hw'⟩ := session_returns hroot (printable_of_cjsonParse hparse) hfit
  rw [session_eq, run_snoc] at hw'
  obtain ⟨w, hw, hrun⟩ := hw'
  have hsteps := (steps_of_run (idle_initWorld _)).mp hw
  exact ⟨w, w', by rw [session_eq, hw], hrun, hsteps,
    ran_of_dtRun (hsteps.idle (idle_initWorld _)) hrun⟩

/-! ## One transition or none -/

/-- A call of `DT_Run` returns with the machine idle. It was ignored, or it took exactly one
transition, of which the document and the file tell the new state. -/
theorem event_ignored_or_one_transition {text : List UInt8} {root : Item}
    (hparse : cjsonParse (cstr text) = some root) (es : List HsmEvent) (e : HsmEvent)
    (hfit : BufferSuffices (session (loadMemory (some text) []) (es ++ [e]))) :
    ∃ w w', session (loadMemory (some text) []) es = .ok () w ∧ (dtRun e).run w = .ok () w' ∧
      w'.hsmTran = false ∧ w'.curState ≠ .hsmRoot ∧
      ((transitions w'.trace = transitions w.trace ∧ w'.mem.displayed = w.mem.displayed ∧
          w'.curState = w.curState ∧ w'.mem.root = w.mem.root ∧ w'.mem.file = w.mem.file) ∨
        (transitions w'.trace = transitions w.trace ++ [(w.curState, w'.curState)] ∧
          w'.mem.displayed = w.mem.displayed ++ [stateName w'.curState] ∧
          w'.mem.root = displayRoot w.mem.root (stateName w'.curState) ∧
          ∃ res, cjsonPrint w'.mem.root = .ok res ∧ w'.mem.file = some res.bytes)) := by
  obtain ⟨w, w', hw, hrun, hsteps, hran⟩ := session_snoc_returns hparse hfit
  have hidle := hran.idle (hsteps.idle (idle_initWorld _))
  refine ⟨w, w', hw, hrun, hidle.hsmTran, hidle.curState, ?_⟩
  rcases hran.doc with ⟨htrans, hsame⟩ | ⟨htrans, hrec⟩
  · exact .inl ⟨htrans, hsame.displayed, hsame.curState, hsame.root, hsame.file⟩
  · exact .inr ⟨htrans, hrec.displayed, hrec.root, hrec.saved (steps_writes hsteps rfl)⟩

theorem event_ignored_or_one_transition_emptyObject :
    ∃ w w', session (loadMemory (some (ascii "\x7b\x7d")) []) [dteJoinN1] = .ok () w ∧
      (dtRun hsmeExit).run w = .ok () w' ∧ w'.hsmTran = false ∧ w'.curState ≠ .hsmRoot ∧
      ((transitions w'.trace = transitions w.trace ∧ w'.mem.displayed = w.mem.displayed ∧
          w'.curState = w.curState ∧ w'.mem.root = w.mem.root ∧ w'.mem.file = w.mem.file) ∨
        (transitions w'.trace = transitions w.trace ++ [(w.curState, w'.curState)] ∧
          w'.mem.displayed = w.mem.displayed ++ [stateName w'.curState] ∧
          w'.mem.root = displayRoot w.mem.root (stateName w'.curState) ∧
          ∃ res, cjsonPrint w'.mem.root = .ok res ∧ w'.mem.file = some res.bytes)) :=
  event_ignored_or_one_transition cjsonParse_emptyObject _ _ (bufferSuffices_emptyObject _ _)

/-! ## The outcome of the write -/

/-- An event changes nothing, or the machine and the document are in the new state and the file is
what the write left: the print, the old content when the file could not be opened, or a part of the
print. -/
theorem document_moves_whatever_the_write_does {text : List UInt8} {root : Item}
    (hparse : cjsonParse (cstr text) = some root) (writes : List WriteOutcome) (es : List HsmEvent)
    (e : HsmEvent) (hfit : BufferSuffices (session (loadMemory (some text) writes) (es ++ [e]))) :
    ∃ w w', session (loadMemory (some text) writes) es = .ok () w ∧ (dtRun e).run w = .ok () w' ∧
      ((w'.curState = w.curState ∧ w'.mem.root = w.mem.root ∧ w'.mem.file = w.mem.file) ∨
        (transitions w'.trace = transitions w.trace ++ [(w.curState, w'.curState)] ∧
          w'.mem.root = displayRoot w.mem.root (stateName w'.curState) ∧
          ∃ res, cjsonPrint w'.mem.root = .ok res ∧
            w'.mem.file =
              match w.mem.writes.headD .complete with
              | .complete => some res.bytes
              | .openRefused => w.mem.file
              | .cutShort n => some (res.bytes.take n)
              | .flushFailed n => some (res.bytes.take n))) := by
  obtain ⟨w, w', hw, hrun, hsteps, hran⟩ := session_snoc_returns hparse hfit
  refine ⟨w, w', hw, hrun, ?_⟩
  rcases hran.doc with ⟨htrans, hsame⟩ | ⟨htrans, hrec⟩
  · exact .inl ⟨hsame.curState, hsame.root, hsame.file⟩
  · obtain ⟨res, hprint, hfile⟩ := hrec.file
    refine .inr ⟨htrans, hrec.root, res, hprint, ?_⟩
    rw [hfile]
    cases w.mem.writes.headD .complete <;> rfl

theorem document_moves_whatever_the_write_does_emptyObject :
    ∃ w w', session (loadMemory (some (ascii "\x7b\x7d")) [.complete, .cutShort 3]) [dteError] =
      .ok () w ∧
      (dtRun dteJoin).run w = .ok () w' ∧
      ((w'.curState = w.curState ∧ w'.mem.root = w.mem.root ∧ w'.mem.file = w.mem.file) ∨
        (transitions w'.trace = transitions w.trace ++ [(w.curState, w'.curState)] ∧
          w'.mem.root = displayRoot w.mem.root (stateName w'.curState) ∧
          ∃ res, cjsonPrint w'.mem.root = .ok res ∧
            w'.mem.file =
              match w.mem.writes.headD .complete with
              | .complete => some res.bytes
              | .openRefused => w.mem.file
              | .cutShort n => some (res.bytes.take n)
              | .flushFailed n => some (res.bytes.take n))) :=
  document_moves_whatever_the_write_does cjsonParse_emptyObject _ _ _ (bufferSuffices_emptyObject _ _)

/-- When the file cannot be opened, the machine is in DTS_DAMAGE and the document tells it, but the
file still holds the text of the start. -/
theorem document_runs_ahead_of_refused_write :
    ∃ w w', session (loadMemory (some (ascii "\x7b\x7d")) [.openRefused]) [] = .ok () w ∧
      (dtRun dteError).run w = .ok () w' ∧
      ¬((∃ res, cjsonPrint w'.mem.root = .ok res ∧ w'.mem.file = some res.bytes) ∨
        (w'.curState = w.curState ∧ w'.mem.root = w.mem.root ∧ w'.mem.file = w.mem.file)) := by
  refine ⟨_, _, rfl, rfl, ?_⟩
  rintro (⟨res, hprint, hfile⟩ | ⟨hstate, -, -⟩)
  · cases hprint
    exact absurd hfile (by decide)
  · exact absurd hstate (by decide)

/-! ## The state diagram -/

/-- The box of the machine is the one that the diagram reaches on the events that are not refused,
and what is refused are faults and maintenance in trial operation. -/
theorem box_follows_heeded_events (file : Option (List UInt8)) (writes : List WriteOutcome)
    (es : List HsmEvent) :
    (session (loadMemory file writes) es).Post
      (fun _ w => box w.curState = (Trial.start.heeded es).foldl Box.step .normal ∧
        (w.curState = .dtsNormalN1 ↔ (es.foldl Trial.step Trial.start).trial))
      (fun f _ => f = .app (.nullString .bufferRefused) ∨
        (cjsonParse (cstr (readFile file).2) = none ∧ f = .app (.nullString .notPrintable))) := by
  refine (session_post file writes es).mono (fun _ w hsteps => ?_) fun f _ h => h
  have htrial := hsteps.trialOf
  constructor
  · exact (congrArg Trial.box htrial).trans (Trial.foldl_heeded Trial.start es).symm
  · rw [← htrial]
    simp [CppJson.trialOf]

/-- A fault in trial operation leaves the machine in the box `normal`, where the diagram goes to
`damage`. -/
theorem box_ignores_fault_in_trial_operation :
    ∃ w, session (loadMemory (some (ascii "\x7b\x7d")) []) [dteJoinN1, dteError] = .ok () w ∧
      box w.curState ≠ [dteJoinN1, dteError].foldl Box.step .normal := by
  refine ⟨_, rfl, ?_⟩
  decide

/-! ## The log -/

/-- The log tells the completed transitions, in order and once each, exactly when every event of the
run logs once. -/
theorem log_faithful_iff (file : Option (List UInt8)) (writes : List WriteOutcome)
    (es : List HsmEvent) :
    (session (loadMemory file writes) es).state.mem.log =
        (transitions (session (loadMemory file writes) es).state.trace).map tranLine ↔
      ∀ pre e post, es = pre ++ e :: post → ∀ w, session (loadMemory file writes) pre = .ok () w →
        LogsOnce w e := by
  cases hrun : session (loadMemory file writes) es with
  | ok _ w => exact ((session_eq_ok.mp hrun).log rfl).2
  | stop f w =>
      obtain ⟨pre, e, post, w₁, rfl, hsteps, -, hdied⟩ := session_eq_stop hrun
      have hlen := (hsteps.log rfl).1
      constructor
      · intro heq
        have hlen' := congrArg List.length heq
        simp only [Outcome.state_stop, hdied.log.1, List.length_map] at hlen'
        have := hdied.log.2
        omega
      · intro h
        exact absurd (h pre e post rfl w₁ (session_eq_ok.mpr hsteps)) hdied.not_logsOnce

/-- Leaving DTS_NORMAL_N1 is logged twice. -/
theorem exit_from_n1_logged_twice :
    ∃ w, session (loadMemory (some (ascii "\x7b\x7d")) []) [dteJoinN1, hsmeExit] = .ok () w ∧
      transitions w.trace = [(.dtsNormal, .dtsNormalN1), (.dtsNormalN1, .dtsNormal)] ∧
      w.mem.log = [(jsonJoin, jsonJoinN1), (jsonJoinN1, jsonJoin), (jsonJoinN1, jsonJoin)] ∧
      w.mem.log ≠ (transitions w.trace).map tranLine := by
  refine ⟨_, rfl, ?_, ?_, ?_⟩ <;> decide

/-! ## ENTRY and EXIT -/

/-- What the engine sends to an innermost state alternates, and ended with ENTRY when it is the
current state: a call sends EXIT once when the state is left and ENTRY once when it is entered. Its
handler receives an ENTRY or EXIT in addition only when that is the event itself and the state is
the current one. -/
theorem notices_alternate (file : Option (List UInt8)) (writes : List WriteOutcome)
    (es : List HsmEvent) :
    ∀ s ∈ innermost,
      Alternate (notices s (session (loadMemory file writes) es).state.trace) ∧
      ∀ w, session (loadMemory file writes) es = .ok () w →
        ((notices s w.trace).getLast? = some hsmeEntry ↔ w.curState = s) ∧
        ∀ e, ((dtRun e).run w).state.trace = w.trace ++ newTrace w e ∧
          received s (newTrace w e) =
            (if w.curState = s ∧ (e = hsmeEntry ∨ e = hsmeExit) then [e] else []) ++
              notices s (newTrace w e) ∧
          ∀ w', (dtRun e).run w = .ok () w' →
            notices s (newTrace w e) =
              if w.curState = s ∧ w'.curState ≠ s then [hsmeExit]
              else if w.curState ≠ s ∧ w'.curState = s then [hsmeEntry]
              else [] := by
  intro s hs
  refine ⟨?_, fun w hw => ?_⟩
  · cases hrun : session (loadMemory file writes) es with
    | ok _ w => exact ((session_eq_ok.mp hrun).alternate hs).1
    | stop f w =>
        obtain ⟨pre, e, post, w₁, rfl, hsteps, hstop, hdied⟩ := session_eq_stop hrun
        have hidle := hsteps.idle (idle_initWorld _)
        have htrace : w.trace = w₁.trace ++ newTrace w₁ e := by
          rw [← trace_newTrace hidle, hstop, Outcome.state_stop]
        obtain ⟨halt, hlast⟩ := hsteps.alternate hs
        rw [Outcome.state_stop, htrace, notices_append]
        rcases hdied.notices hidle hs with hnew | ⟨hcur, hnew⟩
        · rwa [hnew, List.append_nil]
        · rw [hnew]
          exact halt.exit (hlast.mpr hcur)
  · have hsteps := session_eq_ok.mp hw
    have hidle := hsteps.idle (idle_initWorld _)
    refine ⟨(hsteps.alternate hs).2,
      fun e => ⟨trace_newTrace hidle e, received_newTrace hidle e hs, ?_⟩⟩
    intro w' hrun
    exact (ran_of_dtRun hidle hrun).notices hidle hs

theorem notices_alternate_n1 :
    Alternate (notices .dtsNormalN1
      (session (loadMemory (some (ascii "\x7b\x7d")) []) [dteJoinN1]).state.trace) ∧
    ∀ w, session (loadMemory (some (ascii "\x7b\x7d")) []) [dteJoinN1] = .ok () w →
      ((notices .dtsNormalN1 w.trace).getLast? = some hsmeEntry ↔ w.curState = .dtsNormalN1) ∧
      ∀ e, ((dtRun e).run w).state.trace = w.trace ++ newTrace w e ∧
        received .dtsNormalN1 (newTrace w e) =
          (if w.curState = .dtsNormalN1 ∧ (e = hsmeEntry ∨ e = hsmeExit) then [e] else []) ++
            notices .dtsNormalN1 (newTrace w e) ∧
        ∀ w', (dtRun e).run w = .ok () w' →
          notices .dtsNormalN1 (newTrace w e) =
            if w.curState = .dtsNormalN1 ∧ w'.curState ≠ .dtsNormalN1 then [hsmeExit]
            else if w.curState ≠ .dtsNormalN1 ∧ w'.curState = .dtsNormalN1 then [hsmeEntry]
            else [] :=
  notices_alternate _ _ _ _ (by decide)

/-- The handler of DTS_NORMAL_N1 receives EXIT twice when the state is left by the command `e`. -/
theorem exit_from_n1_received_twice :
    ∃ w, session (loadMemory (some (ascii "\x7b\x7d")) []) [dteJoinN1, hsmeExit] = .ok () w ∧
      received .dtsNormalN1 w.trace = [hsmeEntry, hsmeExit, hsmeExit] ∧
        ¬Alternate (received .dtsNormalN1 w.trace) := by
  have hreceived : ∀ t, received .dtsNormalN1 t = [hsmeEntry, hsmeExit, hsmeExit] →
      ¬Alternate (received .dtsNormalN1 t) := by
    rintro t ht ⟨-, hchain⟩
    rw [ht] at hchain
    simp at hchain
  exact ⟨_, rfl, by decide, hreceived _ (by decide)⟩

/-! ## The way back to work -/

/-- From damage and maintenance the sub-states of DTS_NORMAL are reached only after a transition to
DTS_NORMAL itself, of which `normal` was displayed. DTS_NORMAL_N1 is left for DTS_NORMAL or
DTS_NORMAL_N2. -/
theorem operating_only_through_normal {file : Option (List UInt8)} {writes : List WriteOutcome}
    {es : List HsmEvent} {w : RadioWorld} (hw : session (loadMemory file writes) es = .ok () w) :
    (w.curState = .dtsDamage ∨ w.curState = .dtsMaintenance →
      ∀ es' w', session (loadMemory file writes) (es ++ es') = .ok () w' →
        w'.curState = .dtsNormalN1 ∨ w'.curState = .dtsNormalN2 →
        ∃ pre e post w₁ w₂, es' = pre ++ e :: post ∧
          session (loadMemory file writes) (es ++ pre) = .ok () w₁ ∧
          (dtRun e).run w₁ = .ok () w₂ ∧
          transitions w₂.trace = transitions w₁.trace ++ [(w₁.curState, .dtsNormal)] ∧
          w₂.mem.displayed = w₁.mem.displayed ++ [jsonJoin]) ∧
    (w.curState = .dtsNormalN1 → ∀ e w', (dtRun e).run w = .ok () w' → w'.curState ≠ .dtsNormalN1 →
      w'.curState = .dtsNormal ∨ w'.curState = .dtsNormalN2) := by
  have hidle := (session_eq_ok.mp hw).idle (idle_initWorld _)
  constructor
  · intro hdown es' w' hw' hoperating
    have hnot : ¬(w'.curState = .dtsDamage ∨ w'.curState = .dtsMaintenance) := by
      rcases hoperating with h | h <;> simp [h]
    -- the call that ends the time in damage and maintenance
    obtain ⟨pre, e, post, w₁, w₂, rfl, hpre, hdown₁, hran, hdown₂⟩ :=
      ((session_append hw).mp hw').exists_change (P := fun w => w.curState = .dtsDamage ∨
        w.curState = .dtsMaintenance)
        hdown hnot
    refine ⟨pre, e, post, w₁, w₂, rfl, (session_append hw).mpr hpre,
      dtRun_of_ran (hpre.idle hidle) hran, ?_⟩
    cases hran with
    | ignored => exact absurd hdown₁ hdown₂
    | @moved t res hnext hprint =>
        have ht : t = .dtsNormal := (next_of_down hdown₁ hnext).resolve_left hdown₂
        subst ht
        have htrans := (Ran.moved hnext hprint).completed
        rw [hnext] at htrans
        exact ⟨htrans, rfl⟩
  · intro hn1 e w' hrun hleft
    cases ran_of_dtRun hidle hrun with
    | ignored => exact absurd hn1 hleft
    | moved hnext =>
        rw [hn1] at hnext
        exact (next_of_n1 hnext).resolve_left hleft

theorem operating_only_through_normal_repaired :
    ∃ w w', session (loadMemory (some (ascii "\x7b\x7d")) []) [dteError] = .ok () w ∧
      session (loadMemory (some (ascii "\x7b\x7d")) []) ([dteError] ++ [dteJoin, dteJoinN1]) =
        .ok () w' ∧
      ∃ pre e post w₁ w₂, [dteJoin, dteJoinN1] = pre ++ e :: post ∧
        session (loadMemory (some (ascii "\x7b\x7d")) []) ([dteError] ++ pre) = .ok () w₁ ∧
        (dtRun e).run w₁ = .ok () w₂ ∧
        transitions w₂.trace = transitions w₁.trace ++ [(w₁.curState, .dtsNormal)] ∧
        w₂.mem.displayed = w₁.mem.displayed ++ [jsonJoin] :=
  ⟨_, _, rfl, rfl, (operating_only_through_normal rfl).1 (.inl rfl) _ _ rfl (.inl rfl)⟩

/-! ## Dispatch -/

/-- In every state that is reached, dispatching keeps all events but a fault and maintenance in
DTS_NORMAL_N1. -/
theorem dispatch_keeps_event_iff {file : Option (List UInt8)} {writes : List WriteOutcome}
    {es : List HsmEvent} {w : RadioWorld} (hw : session (loadMemory file writes) es = .ok () w)
    (e : HsmEvent) :
    KeepsEvent w e ↔ ¬(w.curState = .dtsNormalN1 ∧ (e = dteError ∨ e = dteMaintain)) :=
  keepsEvent_iff ((session_eq_ok.mp hw).idle (idle_initWorld _)) e

theorem dispatch_keeps_event_iff_emptyObject :
    ∃ w, session (loadMemory (some (ascii "\x7b\x7d")) []) [dteJoinN1] = .ok () w ∧
      (KeepsEvent w dteJoinN2 ↔
        ¬(w.curState = .dtsNormalN1 ∧ (dteJoinN2 = dteError ∨ dteJoinN2 = dteMaintain))) :=
  ⟨_, rfl, @dispatch_keeps_event_iff (some (ascii "\x7b\x7d")) [] [dteJoinN1] _ rfl dteJoinN2⟩

/-- `EXIT_FAILURE` is the number of `DTE_JOIN`: DTS_NORMAL_N1 refuses a fault, and DTS_NORMAL
receives `DTE_JOIN`. -/
theorem fault_in_n1_becomes_join :
    ∃ w, session (loadMemory (some (ascii "\x7b\x7d")) []) [dteJoinN1] = .ok () w ∧
      .handled .dtsNormal dteJoin ∈ newTrace w dteError ∧ ¬KeepsEvent w dteError := by
  have hne : dteJoin ≠ dteError := by decide
  refine ⟨_, rfl, ?_, fun hkeeps => hne (hkeeps .dtsNormal dteJoin ?_).1⟩ <;> decide

end CppJson
