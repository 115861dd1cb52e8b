import CppJson.Elog.Lemmas.Reading
import CppJson.Elog.Lemmas.TagLevels

/-!
# The logger

For every sequence of the calls in `ElogAct`, from `elog_init` on.
-/

namespace CppJson

variable {logBuf : ℕ → UInt8} {acts : List ElogAct} {s s' : EasyLogger} {c c' : ElogCall}
  {args args' : Formatted}

/-- The logger after a sequence of calls. -/
def elogRun (logBuf : ℕ → UInt8) (acts : List ElogAct) : Option EasyLogger :=
  run EasyLogger.step acts (elogInit logBuf)

/-! ## Lines -/

/-- What is passed on to `elog_async_output` is not longer than `log_buf`, behind which nothing is
written. It is never empty and ends with a newline sign, unless it is the text of a call of
`elog_raw`. -/
theorem lines_of_run (hrun : elogRun logBuf acts = some s) :
    (∀ level log, (level, log) ∈ s.output →
      level ≤ elogLvlVerbose ∧ log.length ≤ elogLineBufSize ∧
        (log.getLast? = some (byte '\n') ∨ IsRaw acts level log)) ∧
      ∀ j, elogLineBufSize ≤ j → s.logBuf j = logBuf j := by
  have hpassed := EasyLogger.passed_of_run hrun
  refine ⟨fun level log hlog => ?_, hpassed.outside⟩
  obtain ⟨hlevel, hline | ⟨hassert, logBuf', args, hraw, rfl⟩⟩ := hpassed.logs level log hlog
  · exact ⟨hlevel, hline.length_le, .inl hline.getLast?_eq⟩
  · exact ⟨hlevel, length_rawLog_le logBuf' args, .inr ⟨hassert, logBuf', args, hraw, rfl⟩⟩

/-- A call with a short tag, and two settings in front of it. -/
def helloCall : ElogCall where
  level := 3
  tag := cstr (ascii "radio")
  file := cstr (ascii "main.cpp")
  func := cstr (ascii "main")
  line := 12
  port := ⟨cstr (ascii "now"), cstr (ascii "pid:1"), cstr (ascii "tid:1")⟩

def helloText : CStr := cstr (ascii "hello")

def helloActs : List ElogAct :=
  [.setOutputEnabled true, .setFmt 3 3, .output helloCall (.text helloText)]

theorem isSome_helloActs : (elogRun (fun _ => 0) helloActs).isSome := by decide +kernel

theorem lines_of_run_hello :
    ∃ s, elogRun (fun _ => 0) helloActs = some s ∧ ∀ level log, (level, log) ∈ s.output →
      level ≤ elogLvlVerbose ∧ log.length ≤ elogLineBufSize ∧
        (log.getLast? = some (byte '\n') ∨ IsRaw helloActs level log) := by
  have hrun := (Option.some_get isSome_helloActs).symm
  exact ⟨_, hrun, (lines_of_run hrun).1⟩

/-- A line is the header, the text and the newline sign, one after the other. What is too long is
cut in front of the newline sign. The call is dropped if output is disabled, if its level is above
that of the logger or that of its tag, if its tag does not contain the tag filter, or if the line
does not contain the keyword. -/
theorem output_line (h : s.Ready) (hlevel : c.level ≤ elogLvlVerbose) (text : CStr) :
    ∃ s', elogOutput c (.text text) s = some s' ∧ s'.Ready ∧ SameSettings s s' ∧
      s'.output =
        if s.accepts c = true ∧ s.filter.keyword.bytes <:+: c.body s text then
          s.output ++ [(c.level, c.body s text ++ ascii "\n")]
        else s.output := by
  have hu := packageLine_text s c text
  have hnewline := hu.newline (length_body_lt c s text)
  have hline := hnewline.content
  rw [← hnewline.length] at hline
  rw [h.elogOutput_eq hlevel]
  simp only [hu.hasKeyword nul_free_line, hline]
  refine ⟨_, rfl, ?_⟩
  by_cases haccepts : s.accepts c = true
  · by_cases hkeyword : s.filter.keyword.bytes <:+: c.body s text
    · simp only [haccepts, hkeyword, decide_true, and_self, ↓reduceIte, and_true]
      exact ⟨⟨h.1, h.2, h.3, h.4, h.5⟩,
        ⟨rfl, rfl, rfl, rfl, rfl, hnewline.outside⟩⟩
    · simp only [haccepts, hkeyword, decide_false, and_false, Bool.false_eq_true, ↓reduceIte, and_true]
      refine ⟨⟨h.1, h.2, h.3, h.4, h.5⟩,
        ⟨rfl, rfl, rfl, rfl, rfl, ?_⟩⟩
      intro j hj
      have hend : (packageLine s c (.text text)).logLen + [(0 : UInt8)].length ≤ j := by
        have hlt := length_body_lt c s text
        rw [hu.length, List.length_singleton]
        omega
      exact (memcpy_of_ge hend).trans (hu.outside j hj)
  · simp only [haccepts, Bool.false_eq_true, false_and, ↓reduceIte, and_true]
    exact ⟨h, .rfl⟩

/-- A logger that prints level and tag. -/
def helloLogger : EasyLogger :=
  { elogInit fun _ => 0 with outputEnabled := true, enabledFmtSet := fun _ => 3 }

theorem output_line_hello :
    ∃ s', elogOutput helloCall (.text helloText) helloLogger = some s' ∧
      s'.output = [(3, ascii "I/radio           hello\n")] := by
  obtain ⟨s', hcall, -, -, hout⟩ :=
    output_line (s := helloLogger) (c := helloCall) ⟨rfl, rfl, rfl, rfl, rfl⟩ (by decide) helloText
  refine ⟨s', hcall, hout.trans ?_⟩
  decide +kernel

/-- `elog_raw` passes its text on as it is, also an empty one. From `ELOG_LINE_BUF_SIZE` bytes on
the text loses its end, and the NUL that `vsnprintf` puts there is passed on with it. -/
theorem raw_text (h : s.Ready) (henabled : s.outputEnabled = true) (text : CStr) :
    ∃ s', elogRaw (.text text) s = some s' ∧ s'.Ready ∧ SameSettings s s' ∧
      s'.output = s.output ++ [(elogLvlAssert,
        if text.bytes.length < elogLineBufSize then text.bytes
        else text.bytes.take (elogLineBufSize - 1) ++ [0])] := by
  refine ⟨_, h.elogRaw_eq henabled _, ⟨h.1, h.2, h.3, h.4, h.5⟩,
    ⟨rfl, rfl, rfl, rfl, rfl, fun j hj => vsnprintf_outside s.logBuf (.text text) hj⟩, ?_⟩
  rw [rawLog_text]

theorem raw_text_hello :
    ∃ s', elogRaw (.text helloText) helloLogger = some s' ∧ s'.output = [(0, ascii "hello")] := by
  obtain ⟨s', hcall, -, -, hout⟩ := raw_text (s := helloLogger) ⟨rfl, rfl, rfl, rfl, rfl⟩ rfl helloText
  refine ⟨s', hcall, hout.trans ?_⟩
  decide +kernel

/-- The level of a line and its tag are found again, the tag if it is shorter than 30 bytes. -/
theorem line_found_again (hall : ∀ l, l ≤ elogLvlVerbose → getFmtEnabled s l elogFmtLvl = true)
    (htag : getFmtEnabled s c.level elogFmtTag = true) (hspace : byte ' ' ∉ c.tag.bytes)
    {text : CStr} {log : List UInt8} (hcall : elogOutput c (.text text) s = some s')
    (hlog : s'.output = s.output ++ [(c.level, log)]) :
    elogFindLvl s' log = some (c.level.toNat : ℤ) ∧
      elogFindTag s' log c.level =
        some (if c.tag.bytes.length < elogFilterTagMaxLen then some c.tag.bytes else none) := by
  obtain ⟨hlevel, hsame, hout⟩ := elogOutput_cases hcall
  have henabled : ∀ level set, getFmtEnabled s' level set = getFmtEnabled s level set := by
    intro level set
    rw [getFmtEnabled, hsame.enabledFmtSet, getFmtEnabled]
  rcases hout with hout | ⟨u, -, hu, hout⟩
  · rw [hout] at hlog
    simp at hlog
  · have hline : log = u ++ ascii "\n" := by
      rw [hout] at hlog
      simpa using hlog.symm
    obtain ⟨rest, hrest⟩ := body_eq (hall c.level hlevel) htag text
    rw [hu text rfl, hrest] at hline
    rw [hline]
    constructor
    · rw [List.append_assoc]
      exact elogFindLvl_eq (fun l hl => by rw [henabled, hall l hl]) hlevel _
    · exact elogFindTag_eq hlevel (by rw [henabled, htag]) hspace _

theorem isSome_helloLogger : (elogOutput helloCall (.text helloText) helloLogger).isSome := by
  decide +kernel

theorem line_found_again_hello :
    ∃ s', elogOutput helloCall (.text helloText) helloLogger = some s' ∧
      elogFindLvl s' (ascii "I/radio           hello\n") = some 3 ∧
      elogFindTag s' (ascii "I/radio           hello\n") 3 = some (some (ascii "radio")) := by
  have hcall := (Option.some_get isSome_helloLogger).symm
  have hspace : byte ' ' ∉ helloCall.tag.bytes := by decide
  have hall : ∀ l, l ≤ elogLvlVerbose → getFmtEnabled helloLogger l elogFmtLvl = true :=
    fun _ _ => (by decide : decide ((3 : UInt64) &&& 1 ≠ 0) = true)
  have htag : getFmtEnabled helloLogger 3 elogFmtTag = true := by decide
  have hlog : (Option.get _ isSome_helloLogger).output =
      helloLogger.output ++ [(3, ascii "I/radio           hello\n")] := by decide +kernel
  obtain ⟨hlvl, htag⟩ := line_found_again hall htag hspace hcall hlog
  exact ⟨_, hcall, hlvl, htag⟩

/-! ## The levels of the tags -/

/-- A tag has the level that was last set for it, unless five other tags had one when it was set
first. While the lock stays enabled, `elog_get_filter_tag_lvl` returns that level and leaves
everything as it was. -/
theorem tag_levels_of_run (hlock : .outputLockEnabled false ∉ acts)
    (hrun : elogRun logBuf acts = some s) (tag : CStr) :
    elogGetFilterTagLvl tag s =
      some
        ((levelsSet acts (fun _ => none) (tag.take elogFilterTagMaxLen)).getD elogFilterLvlAll, s) := by
  have hready : s.Ready := EasyLogger.ready_of_run hlock hrun
  obtain ⟨htable, hlevels⟩ := tagLevels_of_run rfl tagTable_init hrun
  rw [show (elogInit logBuf).filter.tagLvl = List.replicate elogFilterTagLvlMaxNum noTagLvl from rfl,
    tagLevels_init] at hlevels
  rw [hready.get, htable.getTagLvl, hlevels]

/-- The level of a tag is set. -/
def radioLevel : List ElogAct := [.setFilterTagLvl helloCall.tag 1]

theorem isSome_radioLevel : (elogRun (fun _ => 0) radioLevel).isSome := by decide +kernel

theorem tag_levels_of_run_radio :
    ∃ s, elogRun (fun _ => 0) radioLevel = some s ∧
      elogGetFilterTagLvl helloCall.tag s =
        some
          ((levelsSet radioLevel (fun _ => none) (helloCall.tag.take elogFilterTagMaxLen)).getD
            elogFilterLvlAll, s) := by
  have hrun := (Option.some_get isSome_radioLevel).symm
  have hlock : .outputLockEnabled false ∉ radioLevel := by simp [radioLevel]
  exact ⟨_, hrun, tag_levels_of_run hlock hrun helloCall.tag⟩

/-! ## Locking -/

/-- As long as the lock stays enabled and the levels are in range, every call returns, and the mutex
is free after it. -/
theorem logger_never_blocks (logBuf : ℕ → UInt8) (hacts : ∀ a ∈ acts, a.InRange) :
    ∃ s, elogRun logBuf acts = some s ∧ s.portLocked = false := by
  have hready : (elogInit logBuf).Ready := ⟨rfl, rfl, rfl, rfl, rfl⟩
  obtain ⟨s, hrun, hend⟩ := hready.run hacts
  exact ⟨s, hrun, hend.portLocked⟩

theorem logger_never_blocks_hello :
    ∃ s, elogRun (fun _ => 0) helloActs = some s ∧ s.portLocked = false := by
  refine logger_never_blocks (fun _ => 0) fun a ha => ?_
  simp only [helloActs, List.mem_cons, List.not_mem_nil, or_false] at ha
  rcases ha with rfl | rfl | rfl
  · trivial
  · exact (by decide : (3 : UInt8) ≤ elogLvlVerbose)
  · exact (by decide : (3 : UInt8) ≤ elogLvlVerbose)

/-- With the lock disabled and the mutex free the first call of `elog_output` that gets as far as
the tags returns, but with the mutex taken, and the next one never returns: the mutex is taken
either way, and it is only given back while the lock is enabled. -/
theorem unlocked_logger_blocks (hinit : s.initOk = true) (hdisabled : s.outputLockEnabled = false)
    (hfree : s.portLocked = false) (henabled : s.outputEnabled = true)
    (hlevel : c.level ≤ elogLvlVerbose) (hfilter : c.level ≤ s.filter.level)
    (hfilter' : c'.level ≤ s.filter.level) :
    ∃ s', elogOutput c args s = some s' ∧ s'.portLocked = true ∧ elogOutput c' args' s' = none := by
  obtain ⟨s', hcall, htaken⟩ := elogOutput_disabled hinit hdisabled hfree henabled hlevel hfilter
  obtain ⟨-, hsame, -⟩ := elogOutput_cases hcall
  refine ⟨s', hcall, htaken,
    elogOutput_blocks (hsame.initOk.trans hinit) htaken (hsame.outputEnabled.trans henabled) ?_⟩
  rwa [hsame.filter]

theorem unlocked_logger_blocks_hello :
    ∃ s', elogOutput helloCall (.text helloText) { helloLogger with outputLockEnabled := false } =
      some s' ∧
      s'.portLocked = true ∧ elogOutput helloCall (.text helloText) s' = none :=
  unlocked_logger_blocks rfl rfl rfl rfl (by decide) (by decide) (by decide)

end CppJson
