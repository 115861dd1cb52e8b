import CppJson.Elog.Lemmas.Line
import CppJson.Lib.Run
import CppJson.Lib.Slots

/-!
# Calls of the logger
-/

namespace CppJson

variable {s s' : EasyLogger} {c : ElogCall} {args : Formatted} {tag tag' : CStr} {level : UInt8}
  {a : ElogAct} {acts : List ElogAct}

/-! ## The line of a call -/

/-- The text of a line, without the newline sign. -/
def ElogCall.body (c : ElogCall) (s : EasyLogger) (text : CStr) : List UInt8 :=
  ((c.header (getFmtEnabled s c.level)).flatten ++ text.bytes).take (elogLineBufSize - 1)

theorem packageLine_text (s : EasyLogger) (c : ElogCall) (text : CStr) :
    (packageLine s c (.text text)).Holds s.logBuf (c.body s text) := by
  have hheader : LineBuf.Holds s.logBuf _ _ :=
    LineBuf.holds_nil.foldl (c.header (getFmtEnabled s c.level))
  have hline := hheader.vsnprintf_reserve text
  rw [List.nil_append, take_take_append (Nat.sub_le _ _)] at hline
  exact hline

theorem length_body_lt (c : ElogCall) (s : EasyLogger) (text : CStr) :
    (c.body s text).length < elogLineBufSize := by
  rw [ElogCall.body, List.length_take]
  exact Nat.lt_of_le_of_lt (Nat.min_le_left _ _) (by decide)

theorem packageLine_holds (s : EasyLogger) (c : ElogCall) (args : Formatted) :
    ∃ u, (packageLine s c args).Holds s.logBuf u ∧ u.length < elogLineBufSize ∧
      ∀ text, args = .text text → u = c.body s text := by
  cases args with
  | text text =>
      refine ⟨_, packageLine_text s c text, length_body_lt c s text, ?_⟩
      rintro _ ⟨⟩
      rfl
  | failed rest =>
      have hheader : LineBuf.Holds s.logBuf _ _ :=
        LineBuf.holds_nil.foldl (c.header (getFmtEnabled s c.level))
      obtain ⟨u, hlen, hu⟩ := hheader.vsnprintf_failed rest
      exact ⟨u, hu, by rw [hlen]; decide, fun text ht => by cases ht⟩

/-! ## The text of `elog_raw` -/

/-- What `elog_raw` passes on, with the memory from `log_buf` on. -/
def rawLog (logBuf : ℕ → UInt8) (args : Formatted) : List UInt8 :=
  let l := LineBuf.vsnprintf ⟨logBuf, 0⟩ args
  cellsAt l.logBuf 0 l.logLen

theorem rawLog_text (logBuf : ℕ → UInt8) (text : CStr) :
    rawLog logBuf (.text text) =
      if text.bytes.length < elogLineBufSize then text.bytes
        else text.bytes.take (elogLineBufSize - 1) ++ [0] := by
  have htext : LineBuf.Holds logBuf _ _ := LineBuf.vsnprintf_nil text
  rw [rawLog, htext.length]
  exact htext.content

theorem length_rawLog_le (logBuf : ℕ → UInt8) (args : Formatted) :
    (rawLog logBuf args).length ≤ elogLineBufSize := by
  cases args with
  | text text =>
      rw [rawLog_text]
      split_ifs with hfits
      · exact Nat.le_of_lt hfits
      · rw [List.length_append, List.length_take, List.length_singleton]
        exact Nat.add_le_of_le_sub (by decide) (Nat.min_le_left _ _)
  | failed rest => simp [rawLog, LineBuf.vsnprintf]

theorem vsnprintf_outside (logBuf : ℕ → UInt8) (args : Formatted) {j : ℕ} (hj : elogLineBufSize ≤ j) :
    (LineBuf.vsnprintf ⟨logBuf, 0⟩ args).logBuf j = logBuf j := by
  cases args with
  | text text => exact (LineBuf.vsnprintf_nil text).outside j hj
  | failed rest =>
      have hend : 0 + (rest.take (elogLineBufSize - 0)).length ≤ j := by
        rw [List.length_take]
        omega
      exact memcpy_of_ge hend

/-! ## What a call changes -/

/-- What a call of `elog_output` or `elog_raw` leaves as it is. -/
structure SameSettings (s s' : EasyLogger) : Prop where
  filter : s'.filter = s.filter
  enabledFmtSet : s'.enabledFmtSet = s.enabledFmtSet
  initOk : s'.initOk = s.initOk
  outputEnabled : s'.outputEnabled = s.outputEnabled
  outputLockEnabled : s'.outputLockEnabled = s.outputLockEnabled
  outside : ∀ j, elogLineBufSize ≤ j → s'.logBuf j = s.logBuf j

theorem SameSettings.rfl : SameSettings s s :=
  ⟨.refl _, .refl _, .refl _, .refl _, .refl _, fun _ _ => .refl _⟩

/-- The locks touch nothing but their own flags. -/
def EasyLogger.withLocks (s : EasyLogger) (portLocked beforeEnable beforeDisable : Bool) : EasyLogger :=
  { s with
    portLocked, outputIsLockedBeforeEnable := beforeEnable,
    outputIsLockedBeforeDisable := beforeDisable }

@[simp] theorem EasyLogger.withLocks_filter (s : EasyLogger) (p e d : Bool) :
    (s.withLocks p e d).filter = s.filter := rfl

theorem elogOutputLock_cases (h : elogOutputLock s = some s') : ∃ p e d, s' = s.withLocks p e d := by
  rw [elogOutputLock, elogPortOutputLock] at h
  split_ifs at h
  · cases h
  · cases h
    exact ⟨_, _, _, rfl⟩
  · cases h
    exact ⟨_, _, _, rfl⟩

theorem elogOutputUnlock_cases (s : EasyLogger) : ∃ p e d, elogOutputUnlock s = s.withLocks p e d := by
  rw [elogOutputUnlock]
  split_ifs <;> exact ⟨_, _, _, rfl⟩

theorem elogOutputUnlock_filter (s : EasyLogger) : (elogOutputUnlock s).filter = s.filter := by
  obtain ⟨p, e, d, heq⟩ := elogOutputUnlock_cases s
  rw [heq, EasyLogger.withLocks_filter]

theorem elogGetFilterTagLvl_cases {lvl : UInt8} (h : elogGetFilterTagLvl tag s = some (lvl, s')) :
    ∃ p e d, s' = s.withLocks p e d := by
  rw [elogGetFilterTagLvl, elogPortOutputLock] at h
  split_ifs at h
  · cases h
    exact ⟨_, _, _, rfl⟩
  · cases h
  · cases h
    obtain ⟨p, e, d, heq⟩ := elogOutputUnlock_cases { s with portLocked := true }
    exact ⟨p, e, d, heq⟩

theorem SameSettings.withLocks (s : EasyLogger) (p e d : Bool) : SameSettings s (s.withLocks p e d) :=
  ⟨.refl _, .refl _, .refl _, .refl _, .refl _, fun _ _ => .refl _⟩

/-- A call of `elog_output` that returns has passed on one line at most. -/
theorem elogOutput_cases (h : elogOutput c args s = some s') :
    c.level ≤ elogLvlVerbose ∧ SameSettings s s' ∧
      (s'.output = s.output ∨
        ∃ u, u.length < elogLineBufSize ∧ (∀ text, args = .text text → u = c.body s text) ∧
          s'.output = s.output ++ [(c.level, u ++ ascii "\n")]) := by
  rw [elogOutput] at h
  split_ifs at h with hlevel hdisabled hfilter
  · cases h
    exact ⟨hlevel, .rfl, .inl rfl⟩
  · cases h
    exact ⟨hlevel, .rfl, .inl rfl⟩
  · refine ⟨hlevel, ?_⟩
    obtain ⟨⟨lvl, s₁⟩, hget, h⟩ := Option.bind_eq_some_iff.mp h
    obtain ⟨p₁, e₁, d₁, rfl⟩ := elogGetFilterTagLvl_cases hget
    simp only at h
    split_ifs at h with htagLvl htag
    · cases h
      exact ⟨.withLocks s p₁ e₁ d₁, .inl rfl⟩
    · cases h
      exact ⟨.withLocks s p₁ e₁ d₁, .inl rfl⟩
    · obtain ⟨s₂, hlock, h⟩ := Option.bind_eq_some_iff.mp h
      obtain ⟨p₂, e₂, d₂, rfl⟩ := elogOutputLock_cases hlock
      obtain ⟨u, hu, hlen, hbody⟩ :=
        packageLine_holds (s.withLocks p₁ e₁ d₁ |>.withLocks p₂ e₂ d₂) c args
      split_ifs at h with hkeyword
      · cases h
        obtain ⟨p, e, d, heq⟩ := elogOutputUnlock_cases
          { (s.withLocks p₁ e₁ d₁).withLocks p₂ e₂ d₂ with
            logBuf := memcpy (packageLine ((s.withLocks p₁ e₁ d₁).withLocks p₂ e₂ d₂) c args).logBuf
              (packageLine ((s.withLocks p₁ e₁ d₁).withLocks p₂ e₂ d₂) c args).logLen [0] }
        rw [heq]
        refine ⟨⟨rfl, rfl, rfl, rfl, rfl, ?_⟩, .inl rfl⟩
        intro j hj
        have hend : (packageLine ((s.withLocks p₁ e₁ d₁).withLocks p₂ e₂ d₂) c args).logLen +
            [(0 : UInt8)].length ≤ j := by
          rw [hu.length, List.length_singleton]
          omega
        exact (memcpy_of_ge hend).trans (hu.outside j hj)
      · have hnewline := hu.newline hlen
        have hline := hnewline.content
        rw [← hnewline.length] at hline
        rw [hline] at h
        cases h
        obtain ⟨p, e, d, heq⟩ := elogOutputUnlock_cases
          { (s.withLocks p₁ e₁ d₁).withLocks p₂ e₂ d₂ with
            logBuf :=
              ((packageLine ((s.withLocks p₁ e₁ d₁).withLocks p₂ e₂ d₂) c args).strcpy
                (ascii "\n")).logBuf
            output := s.output ++ [(c.level, u ++ ascii "\n")] }
        rw [show ((s.withLocks p₁ e₁ d₁).withLocks p₂ e₂ d₂).output = s.output from rfl, heq]
        exact ⟨⟨rfl, rfl, rfl, rfl, rfl, hnewline.outside⟩, .inr ⟨u, hlen, hbody, rfl⟩⟩

/-- A call of `elog_raw` that returns has passed on its text, unless output is disabled. -/
theorem elogRaw_cases (h : elogRaw args s = some s') :
    SameSettings s s' ∧
      (s'.output = s.output ∨ s'.output = s.output ++ [(elogLvlAssert, rawLog s.logBuf args)]) := by
  rw [elogRaw] at h
  split_ifs at h with hdisabled
  · cases h
    exact ⟨.rfl, .inl rfl⟩
  · obtain ⟨s₁, hlock, h⟩ := Option.bind_eq_some_iff.mp h
    obtain ⟨p₁, e₁, d₁, rfl⟩ := elogOutputLock_cases hlock
    cases h
    obtain ⟨p, e, d, heq⟩ := elogOutputUnlock_cases
      { s.withLocks p₁ e₁ d₁ with
        logBuf := (LineBuf.vsnprintf ⟨s.logBuf, 0⟩ args).logBuf
        output := s.output ++ [(elogLvlAssert, rawLog s.logBuf args)] }
    exact heq ▸ ⟨⟨rfl, rfl, rfl, rfl, rfl, fun j hj => vsnprintf_outside s.logBuf args hj⟩, .inr rfl⟩

/-- The other calls pass nothing on and write nothing to `log_buf`. -/
theorem EasyLogger.step_cases (h : EasyLogger.step a s = some s') :
    s'.initOk = s.initOk ∧
      (s'.output = s.output ∧ s'.logBuf = s.logBuf ∨
        (∃ c args, a = .output c args) ∨ ∃ args, a = .raw args) := by
  cases a with
  | setOutputEnabled enabled =>
      cases h
      exact ⟨rfl, .inl ⟨rfl, rfl⟩⟩
  | outputLockEnabled enabled =>
      simp only [EasyLogger.step, elogOutputLockEnabled, elogPortOutputLock] at h
      split_ifs at h <;> cases h <;> exact ⟨rfl, .inl ⟨rfl, rfl⟩⟩
  | setFmt level set =>
      simp only [EasyLogger.step, elogSetFmt] at h
      split_ifs at h
      cases h
      exact ⟨rfl, .inl ⟨rfl, rfl⟩⟩
  | setFilterLvl level =>
      simp only [EasyLogger.step, elogSetFilterLvl] at h
      split_ifs at h
      cases h
      exact ⟨rfl, .inl ⟨rfl, rfl⟩⟩
  | setFilterTag tag =>
      cases h
      exact ⟨rfl, .inl ⟨rfl, rfl⟩⟩
  | setFilterKw keyword =>
      cases h
      exact ⟨rfl, .inl ⟨rfl, rfl⟩⟩
  | setFilterTagLvl tag level =>
      simp only [EasyLogger.step, elogSetFilterTagLvl, elogPortOutputLock] at h
      split_ifs at h
      · cases h
        exact ⟨rfl, .inl ⟨rfl, rfl⟩⟩
      · cases h
      · cases h
        rw [elogOutputUnlock]
        split_ifs <;> exact ⟨rfl, .inl ⟨rfl, rfl⟩⟩
  | getFilterTagLvl tag =>
      obtain ⟨⟨lvl, s₁⟩, hget, rfl⟩ := Option.map_eq_some_iff.mp h
      obtain ⟨p, e, d, rfl⟩ := elogGetFilterTagLvl_cases hget
      exact ⟨rfl, .inl ⟨rfl, rfl⟩⟩
  | raw args => exact ⟨(elogRaw_cases h).1.initOk, .inr (.inr ⟨args, rfl⟩)⟩
  | output c args => exact ⟨(elogOutput_cases h).2.1.initOk, .inr (.inl ⟨c, args, rfl⟩)⟩

/-- What `elog_output` passes on is a line. -/
def IsLine (log : List UInt8) : Prop := ∃ u, u.length < elogLineBufSize ∧ log = u ++ ascii "\n"

theorem IsLine.getLast?_eq {log : List UInt8} (h : IsLine log) : log.getLast? = some (byte '\n') := by
  obtain ⟨u, -, rfl⟩ := h
  rw [List.getLast?_append]
  rfl

theorem IsLine.length_le {log : List UInt8} (h : IsLine log) : log.length ≤ elogLineBufSize := by
  obtain ⟨u, hlen, rfl⟩ := h
  rw [List.length_append]
  exact hlen

/-- The log is the text of a call of `elog_raw`. -/
def IsRaw (acts : List ElogAct) (level : UInt8) (log : List UInt8) : Prop :=
  level = elogLvlAssert ∧ ∃ logBuf args, .raw args ∈ acts ∧ log = rawLog logBuf args

/-- What the calls have passed on, and what they have left as it was behind `log_buf`. -/
structure EasyLogger.Passed (acts : List ElogAct) (logBuf : ℕ → UInt8) (s : EasyLogger) : Prop where
  logs : ∀ level log, (level, log) ∈ s.output →
    level ≤ elogLvlVerbose ∧ (IsLine log ∨ IsRaw acts level log)
  outside : ∀ j, elogLineBufSize ≤ j → s.logBuf j = logBuf j

variable {logBuf : ℕ → UInt8}

/-- Nothing has been passed on. -/
theorem EasyLogger.Passed.same (h : s.Passed acts logBuf) (hout : s'.output = s.output)
    (houtside : ∀ j, elogLineBufSize ≤ j → s'.logBuf j = s.logBuf j) : s'.Passed acts logBuf where
  logs := by
    rw [hout]
    exact h.logs
  outside j hj := (houtside j hj).trans (h.outside j hj)

/-- One more log has been passed on. -/
theorem EasyLogger.Passed.concat {log : List UInt8} (h : s.Passed acts logBuf)
    (hlevel : level ≤ elogLvlVerbose) (hlog : IsLine log ∨ IsRaw acts level log)
    (hout : s'.output = s.output ++ [(level, log)])
    (houtside : ∀ j, elogLineBufSize ≤ j → s'.logBuf j = s.logBuf j) : s'.Passed acts logBuf where
  logs level' log' hmem := by
    rw [hout] at hmem
    rcases List.mem_append.mp hmem with hmem | hmem
    · exact h.logs level' log' hmem
    · cases List.mem_singleton.mp hmem
      exact ⟨hlevel, hlog⟩
  outside j hj := (houtside j hj).trans (h.outside j hj)

/-- One step of the logger. -/
theorem EasyLogger.Passed.step (h : s.Passed acts logBuf) (ha : a ∈ acts)
    (hstep : EasyLogger.step a s = some s') : s'.Passed acts logBuf := by
  obtain ⟨-, ⟨hout, hbuf⟩ | ⟨c, args, rfl⟩ | ⟨args, rfl⟩⟩ := EasyLogger.step_cases hstep
  · exact h.same hout fun j _ => congrFun hbuf j
  · obtain ⟨hlevel, hsame, hout | ⟨u, hlen, -, hout⟩⟩ := elogOutput_cases hstep
    · exact h.same hout hsame.outside
    · exact h.concat hlevel (.inl ⟨u, hlen, rfl⟩) hout hsame.outside
  · obtain ⟨hsame, hout | hout⟩ := elogRaw_cases hstep
    · exact h.same hout hsame.outside
    · exact h.concat (by decide) (.inr ⟨rfl, s.logBuf, args, ha, rfl⟩) hout hsame.outside

/-- A run of the logger. -/
theorem EasyLogger.passed_of_run (hrun : run EasyLogger.step acts (elogInit logBuf) = some s) :
    s.Passed acts logBuf := by
  have hinit : (elogInit logBuf).Passed acts logBuf := by constructor <;> simp [elogInit]
  exact run_invariant (fun a ha s s' h hstep => h.step ha hstep) hinit hrun

/-! ## Locking -/

/-- The lock is enabled and free. -/
structure EasyLogger.Ready (s : EasyLogger) : Prop where
  initOk : s.initOk = true
  outputLockEnabled : s.outputLockEnabled = true
  beforeEnable : s.outputIsLockedBeforeEnable = false
  beforeDisable : s.outputIsLockedBeforeDisable = false
  portLocked : s.portLocked = false

theorem EasyLogger.Ready.lock (h : s.Ready) :
    elogOutputLock s = some (s.withLocks true false true) := by
  obtain ⟨filter, fmt, initOk, outputEnabled, lockEnabled, be, bd, portLocked, buf, output⟩ := s
  obtain ⟨rfl, rfl, rfl, rfl, rfl⟩ := h
  rfl

theorem EasyLogger.Ready.unlock (h : s.Ready) (logBuf : ℕ → UInt8)
    (output : List (UInt8 × List UInt8)) :
    elogOutputUnlock { s.withLocks true false true with logBuf, output } =
      { s with logBuf, output } := by
  obtain ⟨filter, fmt, initOk, outputEnabled, lockEnabled, be, bd, portLocked, buf, out⟩ := s
  obtain ⟨rfl, rfl, rfl, rfl, rfl⟩ := h
  rfl

theorem EasyLogger.Ready.get (h : s.Ready) (tag : CStr) :
    elogGetFilterTagLvl tag s = some (getTagLvl tag s.filter.tagLvl, s) := by
  obtain ⟨filter, fmt, initOk, outputEnabled, lockEnabled, be, bd, portLocked, buf, output⟩ := s
  obtain ⟨rfl, rfl, rfl, rfl, rfl⟩ := h
  rfl

/-- The filters let the call through, except for its keyword. -/
def EasyLogger.accepts (s : EasyLogger) (c : ElogCall) : Bool :=
  s.outputEnabled && decide (c.level ≤ s.filter.level) &&
    decide (c.level ≤ getTagLvl c.tag s.filter.tagLvl) &&
    strstr c.tag s.filter.tag

/-- With the lock enabled and free a call of `elog_output` returns, and the lock is free again. -/
theorem EasyLogger.Ready.elogOutput_eq (h : s.Ready) (hlevel : c.level ≤ elogLvlVerbose)
    (args : Formatted) :
    elogOutput c args s =
      some
        (if s.accepts c then
          let l := packageLine s c args
          if l.hasKeyword s.filter.keyword then
            let l := l.strcpy (ascii "\n")
            { s with
              logBuf := l.logBuf
              output := s.output ++ [(c.level, cellsAt l.logBuf 0 l.logLen)] }
          else { s with logBuf := memcpy l.logBuf l.logLen [0] }
        else s) := by
  have hpackage : packageLine (s.withLocks true false true) c args = packageLine s c args := rfl
  rw [elogOutput, if_pos hlevel]
  by_cases haccepts : s.accepts c = true
  · rw [if_pos haccepts]
    simp only [EasyLogger.accepts, Bool.and_eq_true, decide_eq_true_eq] at haccepts
    obtain ⟨⟨⟨henabled, hfilter⟩, htagLvl⟩, htag⟩ := haccepts
    rw [if_neg (by simp [henabled]), if_neg (UInt8.not_lt.mpr hfilter), h.get, Option.bind_eq_bind,
      Option.bind_some]
    simp only
    rw [if_neg (UInt8.not_lt.mpr htagLvl), if_neg (by simp [htag]), h.lock, Option.bind_eq_bind,
      Option.bind_some]
    simp only [hpackage, EasyLogger.withLocks_filter]
    cases (packageLine s c args).hasKeyword s.filter.keyword with
    | false => exact congrArg some (h.unlock _ _)
    | true => exact congrArg some (h.unlock _ _)
  · rw [if_neg haccepts]
    simp only [EasyLogger.accepts, Bool.and_eq_true, decide_eq_true_eq, not_and,
      Bool.not_eq_true] at haccepts
    split_ifs with henabled hfilter
    · rfl
    · rfl
    · have hfilter := UInt8.not_lt.mp hfilter
      rw [h.get, Option.bind_eq_bind, Option.bind_some]
      simp only
      split_ifs with htagLvl htag
      · rfl
      · rfl
      · simp [haccepts ⟨⟨by simpa using henabled, hfilter⟩, UInt8.not_lt.mp htagLvl⟩] at htag

theorem EasyLogger.Ready.elogRaw_eq (h : s.Ready) (henabled : s.outputEnabled = true)
    (args : Formatted) :
    elogRaw args s =
      some
        { s with
          logBuf := (LineBuf.vsnprintf ⟨s.logBuf, 0⟩ args).logBuf
          output := s.output ++ [(elogLvlAssert, rawLog s.logBuf args)] } := by
  rw [elogRaw, if_neg (by simp [henabled]), h.lock, Option.bind_eq_bind, Option.bind_some]
  exact congrArg some (h.unlock _ _)

/-- Once the lock is disabled, a call of `elog_output` that gets as far as the tags leaves the mutex
taken. -/
theorem elogOutput_disabled (hinit : s.initOk = true) (hdisabled : s.outputLockEnabled = false)
    (hfree : s.portLocked = false) (henabled : s.outputEnabled = true)
    (hlevel : c.level ≤ elogLvlVerbose) (hfilter : c.level ≤ s.filter.level) :
    ∃ s', elogOutput c args s = some s' ∧ s'.portLocked = true := by
  have hget : elogGetFilterTagLvl c.tag s =
      some (getTagLvl c.tag s.filter.tagLvl,
        { s with portLocked := true, outputIsLockedBeforeEnable := false }) := by
    simp [elogGetFilterTagLvl, elogPortOutputLock, elogOutputUnlock, hinit, hfree, hdisabled]
  rw [elogOutput, if_pos hlevel, henabled, hget]
  simp only [elogOutputLock, elogOutputUnlock, hdisabled, Option.bind_eq_bind, Option.bind_some,
    Bool.not_true, Bool.false_eq_true, ↓reduceIte, gt_iff_lt, UInt8.not_lt.mpr hfilter]
  split_ifs <;> exact ⟨_, rfl, rfl⟩

theorem elogOutput_blocks (hinit : s.initOk = true) (htaken : s.portLocked = true)
    (henabled : s.outputEnabled = true) (hfilter : c.level ≤ s.filter.level) :
    elogOutput c args s = none := by
  have hget : elogGetFilterTagLvl c.tag s = none := by
    simp [elogGetFilterTagLvl, elogPortOutputLock, hinit, htaken]
  rw [elogOutput]
  by_cases hlevel : c.level ≤ elogLvlVerbose
  · rw [if_pos hlevel, if_neg (by simp [henabled]), if_neg (UInt8.not_lt.mpr hfilter), hget]
    rfl
  · rw [if_neg hlevel]

/-- The settings are all in range, and the lock stays enabled. -/
def ElogAct.InRange : ElogAct → Prop
  | .outputLockEnabled enabled => enabled = true
  | .setFmt level _ | .setFilterLvl level | .setFilterTagLvl _ level => level ≤ elogLvlVerbose
  | .output call _ => call.level ≤ elogLvlVerbose
  | _ => True

theorem EasyLogger.Ready.step (h : s.Ready) (ha : a.InRange) :
    ∃ s', EasyLogger.step a s = some s' ∧ s'.Ready := by
  cases a with
  | setOutputEnabled enabled => exact ⟨_, rfl, h.1, h.2, h.3, h.4, h.5⟩
  | outputLockEnabled enabled =>
      cases ha
      refine ⟨{ s with outputLockEnabled := true }, ?_, h.initOk, rfl, h.beforeEnable,
        h.beforeDisable, h.portLocked⟩
      simp [EasyLogger.step, elogOutputLockEnabled, h.beforeEnable, h.beforeDisable]
  | setFmt level set =>
      exact ⟨_, if_pos ha, h.1, h.2, h.3, h.4, h.5⟩
  | setFilterLvl level =>
      exact ⟨_, if_pos ha, h.1, h.2, h.3, h.4, h.5⟩
  | setFilterTag tag => exact ⟨_, rfl, h.1, h.2, h.3, h.4, h.5⟩
  | setFilterKw keyword => exact ⟨_, rfl, h.1, h.2, h.3, h.4, h.5⟩
  | setFilterTagLvl tag level =>
      refine ⟨{ s with filter := { s.filter with tagLvl := setTagLvl tag level s.filter.tagLvl } }, ?_,
        h.1, h.2, h.3, h.4, h.5⟩
      rw [EasyLogger.step, elogSetFilterTagLvl, if_pos (show level ≤ elogLvlVerbose from ha),
        if_neg (by simp [h.initOk]), elogPortOutputLock, if_neg (by simp [h.portLocked])]
      simp [elogOutputUnlock, elogPortOutputUnlock, h.outputLockEnabled, h.portLocked, h.beforeDisable]
  | getFilterTagLvl tag => exact ⟨s, by rw [EasyLogger.step, h.get, Option.map_some], h⟩
  | raw args =>
      rw [EasyLogger.step]
      by_cases henabled : s.outputEnabled = true
      · exact ⟨_, h.elogRaw_eq henabled args, h.1, h.2, h.3, h.4, h.5⟩
      · exact ⟨s, if_pos (by simpa using henabled), h⟩
  | output c args =>
      rw [EasyLogger.step, h.elogOutput_eq ha]
      refine ⟨_, rfl, ?_⟩
      split
      · dsimp only
        split <;> exact ⟨h.1, h.2, h.3, h.4, h.5⟩
      · exact h

/-- A run whose settings are in range returns. -/
theorem EasyLogger.Ready.run (h : s.Ready) (hacts : ∀ a ∈ acts, a.InRange) :
    ∃ s', CppJson.run EasyLogger.step acts s = some s' ∧ s'.Ready := by
  induction acts generalizing s with
  | nil => exact ⟨s, rfl, h⟩
  | cons a acts ih =>
      obtain ⟨s₁, hstep, h₁⟩ := h.step (hacts a List.mem_cons_self)
      obtain ⟨s₂, hrun, h₂⟩ := ih h₁ fun b hb => hacts b (List.mem_cons_of_mem a hb)
      exact ⟨s₂, run_cons_eq_some.mpr ⟨s₁, hstep, hrun⟩, h₂⟩

/-- A call that returns has a level in range. -/
theorem EasyLogger.inRange_of_step (hstep : EasyLogger.step a s = some s')
    (ha : a ≠ .outputLockEnabled false) :
    a.InRange := by
  cases a with
  | outputLockEnabled enabled =>
      cases enabled with
      | false => exact absurd rfl ha
      | true => rfl
  | setFmt level set =>
      by_contra hlevel
      cases (if_neg hlevel).symm.trans hstep
  | setFilterLvl level =>
      by_contra hlevel
      cases (if_neg hlevel).symm.trans hstep
  | setFilterTagLvl tag level =>
      by_contra hlevel
      cases (if_neg hlevel).symm.trans hstep
  | output c args => exact (elogOutput_cases hstep).1
  | _ => trivial

/-- While the lock stays enabled, it is free after every call that returns. -/
theorem EasyLogger.ready_of_run (hlock : .outputLockEnabled false ∉ acts)
    (hrun : CppJson.run EasyLogger.step acts (elogInit logBuf) = some s) : s.Ready := by
  refine run_invariant (I := EasyLogger.Ready) ?_ ⟨rfl, rfl, rfl, rfl, rfl⟩ hrun
  intro a ha s s' hready hstep
  obtain ⟨s₁, hstep₁, hready₁⟩ :=
    hready.step (EasyLogger.inRange_of_step hstep (ne_of_mem_of_not_mem ha hlock))
  cases hstep.symm.trans hstep₁
  exact hready₁

end CppJson
