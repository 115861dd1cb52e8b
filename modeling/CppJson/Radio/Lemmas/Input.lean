import CppJson.Lib.Scan
import CppJson.Radio.Lemmas.Loop

/-!
# Rounds of the command loop

The rounds are the command loop over the values that `input` takes (`commandRounds_eq`): the
characters typed and then what was left in the variable (`inputs_eq`).
-/

namespace CppJson

/-! ## What `input` holds -/

/-- The values of `input` in the first `n` rounds. -/
def Istream.inputs : ℕ → Istream → List UInt8
  | 0, _ => []
  | n + 1, cin => cin.extract.1 :: cin.extract.2.inputs n

theorem filter_dropWhile_isspace (chars : List UInt8) :
    (chars.dropWhile isspace).filter (fun c => !isspace c) = chars.filter fun c => !isspace c := by
  induction chars with
  | nil => rfl
  | cons c cs ih =>
      by_cases hc : isspace c
      · simp [hc, ih]
      · simp [hc]

theorem inputs_eq (n : ℕ) (cin : Istream) :
    cin.inputs n =
      (cin.chars.filter fun c => !isspace c).take n ++
        (List.range (n - (cin.chars.filter fun c => !isspace c).length)).map cin.leftover := by
  induction n generalizing cin with
  | zero => simp [Istream.inputs]
  | succ n ih =>
      rw [Istream.inputs, ih, Istream.extract, ← filter_dropWhile_isspace cin.chars]
      cases h : cin.chars.dropWhile isspace with
      | nil => simp [List.range_succ_eq_map, Function.comp_def]
      | cons c cs =>
          have hc : isspace c = false := by
            have hhead := List.head_dropWhile_not isspace (l := cin.chars) (by simp [h])
            simpa [h] using hhead
          simp [hc]

example : (⟨ascii " d\n1", fun n => byte 'x' + n.toUInt8⟩ : Istream).inputs 4 = ascii "d1xy" := by
  decide

theorem e_mem_filter {chars : List UInt8} :
    byte 'E' ∈ chars.filter (fun c => !isspace c) ↔ byte 'E' ∈ chars := by
  have hE : isspace (byte 'E') = false := by decide
  simp only [List.mem_filter, hE, Bool.not_false, and_true]

theorem e_notMem_typed (chars : List UInt8) : byte 'E' ∉ typed chars := by
  intro hmem
  simpa using List.mem_takeWhile_imp hmem

/-- After as many rounds as there are characters, nothing was left to chance. -/
theorem inputs_length (chars : List UInt8) (leftover : ℕ → UInt8) :
    (⟨chars, leftover⟩ : Istream).inputs (chars.filter fun c => !isspace c).length =
      chars.filter fun c => !isspace c := by
  simp [inputs_eq]

/-- When only an `E` that was typed is met, the rounds in front of it are those of the characters
typed. -/
theorem takeWhile_inputs {chars : List UInt8} {leftover : ℕ → UInt8} {n : ℕ}
    (hleft : ∀ k, leftover k ≠ byte 'E') (hE : byte 'E' ∈ (⟨chars, leftover⟩ : Istream).inputs n) :
    byte 'E' ∈ chars ∧
      ((⟨chars, leftover⟩ : Istream).inputs n).takeWhile (· ≠ byte 'E') = typed chars := by
  rw [inputs_eq] at hE ⊢
  have hrange :
      byte 'E' ∉ (List.range (n - (chars.filter fun c => !isspace c).length)).map leftover := by
    intro hmem
    obtain ⟨k, -, hk⟩ := List.mem_map.mp hmem
    exact hleft k hk
  have htake := (List.mem_append.mp hE).resolve_right hrange
  refine ⟨e_mem_filter.mp (List.mem_of_mem_take htake), ?_⟩
  rw [takeWhile_append_of_mem htake (by simp), typed]
  conv_rhs => rw [← List.take_append_drop n (chars.filter fun c => !isspace c)]
  rw [takeWhile_append_of_mem htake (by simp)]

/-! ## Rounds -/

theorem commandLoop_eq (inputs : List UInt8) :
    commandLoop inputs = Prog.runUntil (byte 'E') loopBody inputs := by
  induction inputs with
  | nil => rfl
  | cons c cs ih => rw [commandLoop, Prog.runUntil, ih]

theorem commandRounds_eq {ε σ : Type} (run : HsmEvent → Prog ε σ Unit) (stream : Prog ε σ Unit) (n : ℕ)
    (cin : Istream) :
    commandRounds run stream n cin = Prog.runUntil (byte 'E') (loopBodyOver run stream)
      (cin.inputs n) := by
  induction n generalizing cin with
  | zero => rfl
  | succ n ih => simp only [commandRounds, Istream.inputs, Prog.runUntil, ih]

theorem loopBodyOver_noting {ε σ : Type} (run : HsmEvent → Prog ε σ Unit) (stream : Prog ε σ Unit)
    (c : UInt8) (s : σ) (es : List HsmEvent) :
    (loopBodyOver (Prog.noting run) (Prog.beside stream) c).run (s, es) =
      ((loopBodyOver run stream c).run s).mapState (·, es ++ (command c).toList) := by
  unfold loopBodyOver
  cases command c with
  | none => simp [Prog.beside]
  | some e =>
      simp only [Prog.run_bind, Prog.noting, Prog.run_modify, Prog.beside, Option.toList_some]
      cases (run e).run s <;> rfl

/-- The rounds call `DT_Run` for the commands that `input` held. -/
theorem mainRounds_eq_ok {file : Option (List UInt8)} {writes : List WriteOutcome} {cin : Istream}
    {n : ℕ} {b : Bool} {w : RadioWorld} {es : List HsmEvent} :
    mainRounds file writes cin n = .ok b (w, es) ↔
      (Prog.runAll loopBody ((cin.inputs n).takeWhile (· ≠ byte 'E'))).run
        (initWorld (loadMemory file writes)) =
        .ok () w ∧
      b = decide (byte 'E' ∈ cin.inputs n) ∧
      es = ((cin.inputs n).takeWhile (· ≠ byte 'E')).filterMap command := by
  simp only [mainRounds, dtInit_eq, commandRounds_eq, Prog.run_runUntil, Prog.run_bind_eq_ok,
    Prog.run_pure, Prog.run_noted_eq_ok (loopBodyOver_noting dtRun streamRoot), loopBody_eq,
    List.filterMap_eq_flatMap_toList, List.nil_append, Outcome.ok.injEq]
  constructor
  · rintro ⟨_, s, ⟨hrun, hes⟩, rfl, rfl⟩
    exact ⟨hrun, rfl, hes⟩
  · rintro ⟨hrun, rfl, rfl⟩
    exact ⟨(), _, ⟨hrun, rfl⟩, rfl, rfl⟩

/-- `main` on characters without `E`. -/
theorem main_eq_ok_false {file : Option (List UInt8)} {writes : List WriteOutcome} {inputs : List UInt8}
    {w : RadioWorld} (hE : byte 'E' ∉ inputs) :
    main file writes inputs = .ok false w ↔
      (Prog.runAll loopBody inputs).run (initWorld (loadMemory file writes)) = .ok () w := by
  have hall : inputs.takeWhile (· ≠ byte 'E') = inputs :=
    List.takeWhile_eq_self_iff.mpr fun c hc => decide_eq_true fun h : c = byte 'E' => hE (h ▸ hc)
  simp only [main, dtInit_eq, commandLoop_eq, Prog.run_runUntil, hall, Prog.run_bind_eq_ok,
    Prog.run_pure, Outcome.ok.injEq, decide_eq_false_iff_not, hE, not_false_eq_true, true_and]
  constructor
  · rintro ⟨_, s, hrun, rfl⟩
    exact hrun
  · intro hrun
    exact ⟨(), w, hrun, rfl⟩

/-! ## One round -/

theorem streamRoot_returns_iff {w w' : RadioWorld} :
    streamRoot.run w = .ok () w' ↔ w' = w ∧ ∃ res, cjsonPrint w.mem.root = .ok res := by
  simp only [streamRoot, Prog.run_get_bind]
  cases cjsonPrint w.mem.root <;> simp [eq_comm]

/-- A round returns exactly when the document it ends with can be printed. -/
theorem loopBody_returns_iff {w : RadioWorld} (hidle : Idle w) (c : UInt8) :
    (∃ w', (loopBody c).run w = .ok () w') ↔ ∃ res, cjsonPrint (rootAfter w c) = .ok res := by
  unfold loopBody rootAfter
  cases command c with
  | none => simp [streamRoot_returns_iff]
  | some e =>
      simp only [Prog.run_bind_eq_ok, streamRoot_returns_iff, Option.bind_some]
      cases hnext : next w.curState e with
      | none => simp [dtRun_none hnext]
      | some t =>
          cases hprint : cjsonPrint (displayRoot w.mem.root (stateName t)) with
          | error why => simp [dtRun_error hidle.hsmTran hnext hprint]
          | ok res =>
              rw [dtRun_ok hidle.hsmTran hnext hprint]
              simp [World.moved, hprint]

theorem runAll_loopBody_idle {mem : Memory} {cs : List UInt8} {w : RadioWorld}
    (h : (Prog.runAll loopBody cs).run (initWorld mem) = .ok () w) : Idle w := by
  have hstep : ∀ c w, Idle w → ((loopBody c).run w).Post (fun _ => Idle) fun _ _ => True :=
    fun c w hw =>
      loopBody_post (fun e w hw => (dtRun_post hw.hsmTran e).mono (fun _ _ hran => hran.idle hw)
        fun _ _ _ => trivial)
        (fun _ _ _ _ => trivial) c hw
  have hpost := Prog.runAll_post hstep (idle_initWorld mem) cs
  rwa [h] at hpost

/-- Rounds over characters without `E` return exactly when every document on the way can be
printed. -/
theorem rounds_return_iff {file : Option (List UInt8)} {writes : List WriteOutcome} {cs : List UInt8}
    (hE : byte 'E' ∉ cs) :
    (∃ w, (Prog.runAll loopBody cs).run (initWorld (loadMemory file writes)) = .ok () w) ↔
      ∀ pre c post, cs = pre ++ c :: post → ∀ w, main file writes pre = .ok false w →
        ∃ res, cjsonPrint (rootAfter w c) = .ok res := by
  rw [Prog.runAll_returns_iff]
  have hpoint : ∀ pre c post, cs = pre ++ c :: post → ∀ w,
      (Prog.runAll loopBody pre).run (initWorld (loadMemory file writes)) = .ok () w ↔
        main file writes pre = .ok false w := by
    rintro pre c post rfl w
    exact (main_eq_ok_false fun h => hE (List.mem_append_left _ h)).symm
  constructor
  · intro h pre c post hcs w hw
    have hrun := (hpoint pre c post hcs w).mpr hw
    exact (loopBody_returns_iff (runAll_loopBody_idle hrun) c).mp (h pre c post hcs w hrun)
  · intro h pre c post hcs w hrun
    exact (loopBody_returns_iff (runAll_loopBody_idle hrun) c).mpr
      (h pre c post hcs w ((hpoint pre c post hcs w).mp hrun))

end CppJson
