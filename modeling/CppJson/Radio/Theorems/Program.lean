import CppJson.Radio.Lemmas.Input

/-!
# The whole program

The results about `main`, from the file it finds to the end of the input.
-/

namespace CppJson

open Json

/-! ## Files that are not overwritten -/

/-- The file keeps its text when `cJSON_Parse` rejects it, and when no transition is completed. -/
theorem rejected_file_is_kept (text : List UInt8) (writes : List WriteOutcome) (inputs : List UInt8)
    (h : cjsonParse (cstr text) = none ∨
      transitions (main (some text) writes inputs).state.trace = []) :
    (main (some text) writes inputs).state.mem.file = some text := by
  rcases h with hparse | hnone
  · have hmain : (main (some text) writes inputs).Post
        (fun _ w => (Idle w ∧ w.mem.root = none) ∧ w.mem.file = some text) fun _ w =>
          w.mem.file = some text := by
      refine main_post (fun e w hw => ?_) (fun why w hw _ => hw.2) ⟨⟨idle_initWorld _, hparse⟩,
        rfl⟩ inputs
      obtain ⟨⟨hidle, hroot⟩, hfile⟩ := hw
      refine (dtRun_post hidle.hsmTran e).mono (fun _ w' hran => ?_) ?_
      · cases hran with
        | ignored => exact ⟨⟨⟨hidle.hsmTran, hidle.curState⟩, hroot⟩, hfile⟩
        | moved _ hprint =>
            rw [hroot, displayRoot_none] at hprint
            cases hprint
      · rintro f w' ⟨t, why, -, -, -, rfl⟩
        exact hfile
    have hfile := hmain.mono (fun _ w h => h.2) fun _ _ h => h
    exact hfile.state
  · have hmain : (main (some text) writes inputs).Post
        (fun _ w => Idle w ∧ (transitions w.trace = [] → w.mem.file = some text))
        fun _ w => transitions w.trace = [] → w.mem.file = some text := by
      refine main_post (fun e w hw => ?_) (fun why w hw _ => hw.2) ⟨idle_initWorld _,
        fun _ => rfl⟩ inputs
      obtain ⟨hidle, hfile⟩ := hw
      refine (dtRun_post hidle.hsmTran e).mono (fun _ w' hran => ⟨hran.idle hidle, fun hnone => ?_⟩) ?_
      · rcases hran.doc with ⟨htrans, hsame⟩ | ⟨htrans, -⟩
        · rw [hsame.file, hfile (htrans.symm.trans hnone)]
        · simp [htrans] at hnone
      · intro f w' hdied hnone
        have htrans := hdied.log.1
        obtain ⟨t, why, -, -, -, rfl⟩ := hdied
        exact hfile (htrans.symm.trans hnone)
    have hfile := hmain.mono (fun _ w h => h.2) fun _ _ h => h
    exact hfile.state hnone

theorem rejected_file_is_kept_openBracket :
    (main (some (ascii "[1")) [] [byte 'd', byte 'E']).state.mem.file = some (ascii "[1") :=
  rejected_file_is_kept _ _ _ (.inl rfl)

theorem Json.IsText.brace_mem {t : List UInt8} {ms : List (List Chr × Json)}
    (h : IsText t (.object ms)) :
    byte '\x7b' ∈ t := by
  obtain ⟨w, v, w', rfl, -, hv, -⟩ := h
  have hmem : byte '\x7b' ∈ v := by
    cases hv with
    | emptyObject => exact List.mem_cons_self
    | object => exact List.mem_cons_self
  exact List.mem_append_left _ (List.mem_append_right _ hmem)

/-- An array is no object, but a state is recorded in it. -/
theorem array_is_overwritten :
    (∀ bom t ms, ascii "[]" = bom ++ t → ¬IsText t (.object ms)) ∧
    (main (some (ascii "[]")) [] [byte 'd', byte 'E']).state.mem.file ≠ some (ascii "[]") := by
  constructor
  · intro bom t ms heq htext
    have hmem : byte '\x7b' ∈ ascii "[]" := heq ▸ List.mem_append_right bom htext.brace_mem
    exact absurd hmem (by decide)
  · decide

/-! ## NULL strings -/

/-- The program uses no NULL result of `cJSON_Print` exactly when it has a document, or when the first
round of the loop, if there is one, finds an `E`. -/
theorem no_null_string_iff {file : Option (List UInt8)} {writes : List WriteOutcome}
    {inputs : List UInt8} (hfit : BufferSuffices (main file writes inputs)) :
    (∀ why w, main file writes inputs ≠ .stop (.app (.nullString why)) w) ↔
      (∃ root, cjsonParse (cstr (readFile file).2) = some root) ∨
        ∀ c, inputs.head? = some c → c = byte 'E' := by
  constructor
  · intro hnull
    cases hparse : cjsonParse (cstr (readFile file).2) with
    | some root => exact .inl ⟨root, rfl⟩
    | none =>
        refine .inr fun c hhead => ?_
        by_contra hc
        obtain ⟨cs, rfl⟩ := List.head?_eq_some_iff.mp hhead
        have hbody := loopBody_null c (idle_initWorld (loadMemory file writes)) hparse
        cases hrun : (loopBody c).run (initWorld (loadMemory file writes)) with
        | ok _ w => rw [hrun] at hbody; exact hbody
        | stop f w =>
            rw [hrun] at hbody
            refine hnull .notPrintable w ?_
            rw [main, dtInit_eq]
            simp only [commandLoop, hc, ↓reduceIte]
            rw [Prog.run_bind_stop hrun]
            exact congrArg (Outcome.stop · w) hbody
  · rintro (⟨root, hparse⟩ | hE) why w hstop
    · have hmain : (main file writes inputs).Post (fun _ => Ready) fun f _ =>
          f = .app (.nullString .bufferRefused) := by
        refine main_post (fun e w hw => dtRun_ready hw e) (fun why w hw hprint => ?_)
          (ready_initWorld hparse (wellFormed_of_cjsonParse hparse).1.printable) inputs
        obtain ⟨root, hroot, hp⟩ := hw.root
        rw [hroot] at hprint
        rw [((print_eq_error hp true why).mp hprint).2]
      rw [hstop] at hmain
      exact hfit w (hstop.trans (congrArg (Outcome.stop · w) hmain))
    · cases inputs with
      | nil => simp [main, dtInit_eq, commandLoop] at hstop
      | cons c cs =>
          obtain rfl := hE c rfl
          simp [main, dtInit_eq, commandLoop] at hstop

theorem no_null_string_iff_emptyObject :
    (∀ why w, main (some (ascii "\x7b\x7d")) [] [byte 'd'] ≠ .stop (.app (.nullString why)) w) ↔
      (∃ root, cjsonParse (cstr (readFile (some (ascii "\x7b\x7d"))).2) = some root) ∨
        ∀ c, [byte 'd'].head? = some c → c = byte 'E' :=
  no_null_string_iff fun _ h => by cases h

/-- Without a file the first fault converts a NULL pointer to a string. -/
theorem null_string_without_file :
    ∃ why w, main none [] [byte 'd'] = .stop (.app (.nullString why)) w :=
  ⟨_, _, rfl⟩

/-! ## The end of the input -/

/-- Without the list of events, the rounds are `main` over the values of `input`. -/
theorem main_inputs (file : Option (List UInt8)) (writes : List WriteOutcome) (cin : Istream) (n : ℕ) :
    main file writes (cin.inputs n) = (mainRounds file writes cin n).mapState Prod.fst := by
  simp only [main, mainRounds, dtInit_eq, commandLoop_eq, commandRounds_eq, Prog.run_runUntil,
    Prog.run_bind, loopBody_eq,
    ← Prog.run_noted (loopBodyOver_noting dtRun streamRoot) _ (initWorld _) []]
  cases (Prog.runAll (loopBodyOver (Prog.noting dtRun) (Prog.beside streamRoot)) _).run _ <;> rfl

/-- Whatever the variable holds when nothing can be read, the loop returns after it called `DT_Run`
for the commands in front of the first `E`, exactly when there is an `E` and every document on the
way to it can be printed. -/
theorem loop_acts_on_typed_iff (file : Option (List UInt8)) (writes : List WriteOutcome)
    (chars : List UInt8) :
    (∀ leftover, ∃ n w, mainRounds file writes ⟨chars, leftover⟩ n =
      .ok true (w, (typed chars).filterMap command)) ↔
      byte 'E' ∈ chars ∧
        ∀ pre c post, typed chars = pre ++ c :: post → ∀ w, main file writes pre = .ok false w →
          ∃ res, cjsonPrint (rootAfter w c) = .ok res := by
  rw [← rounds_return_iff (e_notMem_typed chars)]
  constructor
  · intro hends
    obtain ⟨n, w, hrounds⟩ := hends fun _ => 0
    obtain ⟨hrun, hE, -⟩ := mainRounds_eq_ok.mp hrounds
    obtain ⟨hmem, htyped⟩ := takeWhile_inputs (fun _ => by decide) (of_decide_eq_true hE.symm)
    exact ⟨hmem, w, htyped ▸ hrun⟩
  · rintro ⟨hE, w, hrun⟩ leftover
    refine ⟨(chars.filter fun c => !isspace c).length, w, mainRounds_eq_ok.mpr ?_⟩
    rw [inputs_length]
    exact ⟨hrun, (decide_eq_true (e_mem_filter.mpr hE)).symm, rfl⟩

/-- At the end of an empty stream the variable may hold `d`: then `DT_Run` is called for what nobody
typed, and the loop does not return. -/
theorem empty_stream_does_not_end :
    ∃ leftover, (∃ w, mainRounds (some (ascii "\x7b\x7d")) [] ⟨[], leftover⟩ 1 =
      .ok false (w, [dteError])) ∧
      ∀ n w, mainRounds (some (ascii "\x7b\x7d")) [] ⟨[], leftover⟩ n ≠ .ok true (w,
        (typed []).filterMap command) := by
  refine ⟨fun _ => byte 'd', ⟨_, rfl⟩, fun n w hrounds => ?_⟩
  obtain ⟨-, hE, -⟩ := mainRounds_eq_ok.mp hrounds
  obtain ⟨hmem, -⟩ := takeWhile_inputs (fun _ => by decide) (of_decide_eq_true hE.symm)
  cases hmem

end CppJson
