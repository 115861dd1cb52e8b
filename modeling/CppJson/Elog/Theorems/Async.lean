import CppJson.Elog.Lemmas.Framing

/-!
# Asynchronous output

For every order in which callers, output thread and `elog_async_deinit` take their steps.
-/

namespace CppJson

variable {N pollSize : ℕ} {logBuf : ℕ → UInt8} {acts rest : List AsyncAct} {s s₁ s' : Async}

/-- Asynchronous output as it is from its initialisation on. -/
def asyncRun (N pollSize : ℕ) (logBuf : ℕ → UInt8) (acts : List AsyncAct) : Option Async :=
  run (Async.step N pollSize) acts (elogAsyncInit logBuf)

/-- What is taken is printed, in its order and without a gap: what the thread has printed, what it
is about to print and what the buffer holds make up what was taken. A call takes as much as there is
space for, and nothing is written behind the buffer. -/
theorem queued_in_order (hN : 0 < N) (hpoll : 0 < pollSize)
    (hacts : ∀ level, AsyncAct.output level [] ∉ acts)
    (hrun : asyncRun N pollSize logBuf acts = some s) :
    s.output.flatMap PortOutput.queuedBytes ++ s.thread.printing ++ s.buf.contents N = s.taken ∧
      (∀ log, .queued log ∈ s.output → log ≠ [] ∧ log.length ≤ pollSize) ∧
      (∀ j, N ≤ j → s.buf.logBuf j = logBuf j) ∧
      ∀ level log s', log ≠ [] → s.isEnabled = true →
        Async.step N pollSize (.output level log) s = some s' →
        s'.taken = s.taken ++ log.take (N - (s.buf.contents N).length) := by
  obtain ⟨q, h⟩ := Async.inv_of_run hN hpoll hacts hrun
  rw [h.holds.contents_eq]
  refine ⟨h.taken, h.queued, h.outside, ?_⟩
  intro level log s' hlog henabled hstep
  obtain ⟨q', -, htaken⟩ := h.output hlog hstep
  exact (htaken henabled).2

/-- Two lines, the second of which goes over the end of a buffer of four bytes. -/
def twoLines : List AsyncAct :=
  [.enabled true, .output 0 (ascii "ab\n"), .notice, .thread, .thread, .thread, .thread,
    .output 0 (ascii "c\n")]

theorem twoLines_ne_nil (level : UInt8) : AsyncAct.output level [] ∉ twoLines := by
  simp [twoLines, ascii]

theorem isSome_twoLines : (asyncRun 4 4 (fun _ => 0) twoLines).isSome := by decide +kernel

theorem queued_in_order_twoLines :
    ∃ s, asyncRun 4 4 (fun _ => 0) twoLines = some s ∧
      s.output.flatMap PortOutput.queuedBytes ++ s.thread.printing ++ s.buf.contents 4 = s.taken := by
  have hrun := (Option.some_get isSome_twoLines).symm
  exact ⟨_, hrun, (queued_in_order (by decide) (by decide) twoLines_ne_nil hrun).1⟩

/-- When nobody calls any more, the thread comes to rest, after no more steps than `work` counts. If
it has not been stopped, everything that was taken is printed then. If it has been stopped, it has
ended. -/
theorem output_thread_drains (hN : 0 < N) (hpoll : 0 < pollSize)
    (hacts : ∀ level, AsyncAct.output level [] ∉ acts)
    (hrun : asyncRun N pollSize logBuf acts = some s) (hrest : ∀ a ∈ rest, AsyncAct.IsOwn a)
    (hown : run (Async.step N pollSize) rest s = some s') :
    rest.length ≤ s.work N ∧
      (s'.Rests N pollSize → s'.threadRunning = true →
        s'.output.flatMap PortOutput.queuedBytes = s'.taken) ∧
      (s'.Rests N pollSize → s'.threadRunning = false → s'.thread = .ended) := by
  have hinv := Async.inv_of_run hN hpoll hacts hrun
  have hlength := run_length_le (I := fun s => ∃ q, s.Inv N pollSize logBuf q) (f := fun s => s.work N)
    (by
      rintro a ha s s' ⟨q, h⟩ hstep
      exact h.own hpoll (hrest a ha) hstep) hinv hown
  obtain ⟨q', h'⟩ : ∃ q, s'.Inv N pollSize logBuf q := by
    refine run_invariant (I := fun s => ∃ q, s.Inv N pollSize logBuf q) ?_ hinv hown
    rintro a ha s s' ⟨q, h⟩ hstep
    exact (h.own hpoll (hrest a ha) hstep).1
  exact ⟨by omega, fun hrests => (h'.rests hrests).1, fun hrests => (h'.rests hrests).2⟩

/-- The notice of the second call, and what the thread does until it sleeps. -/
def untilRest : List AsyncAct := .notice :: List.replicate 7 .thread

theorem isSome_untilRest :
    (run (Async.step 4 4) untilRest (Option.get _ isSome_twoLines)).isSome := by decide +kernel

theorem output_thread_drains_twoLines :
    ∃ s s', asyncRun 4 4 (fun _ => 0) twoLines = some s ∧ run (Async.step 4 4) untilRest s = some s' ∧
      s'.output.flatMap PortOutput.queuedBytes = s'.taken := by
  have hown : ∀ a ∈ untilRest, a.IsOwn := by simp [untilRest, AsyncAct.IsOwn]
  have hrun := (Option.some_get isSome_twoLines).symm
  have hgoon := (Option.some_get isSome_untilRest).symm
  refine ⟨_, _, hrun, hgoon,
    (output_thread_drains (by decide) (by decide) twoLines_ne_nil hrun hown hgoon).2.1 ?_ ?_⟩
  · rintro a (rfl | rfl | rfl) <;> exact Option.isNone_iff_eq_none.mp (by decide +kernel)
  · decide +kernel

/-- When the logs end with a newline sign, as those of `elog_output` do, and there is room for all
of them, nothing is lost: what is printed, about to be printed or in the buffer are the logs of the
calls, one after the other. The thread prints up to the end of a line, unless `poll_get_buf` is
full. -/
theorem printed_in_whole_lines (hN : 0 < N) (hpoll : 0 < pollSize)
    (hlines : ∀ level log, .output level log ∈ acts → log.getLast? = some (byte '\n'))
    (hfits : allFit N pollSize acts (elogAsyncInit logBuf) = true)
    (hrun : asyncRun N pollSize logBuf acts = some s) :
    s.output.flatMap PortOutput.queuedBytes ++ s.thread.printing ++ s.buf.contents N =
      queuedLogs acts false ∧
      (∀ log, .queued log ∈ s.output → log.getLast? = some (byte '\n') ∨ log.length = pollSize) ∧
      (s.Rests N pollSize → s.threadRunning = true →
        s.output.flatMap PortOutput.queuedBytes = queuedLogs acts false) := by
  obtain ⟨q, h, hwhole, hlogs⟩ := Async.whole_of_run hN hpoll hlines hfits hrun
  refine ⟨?_, hwhole.queued, fun hrests hrunning => ((h.rests hrests).1 hrunning).trans hlogs⟩
  rw [h.holds.contents_eq, h.taken, hlogs]

theorem printed_in_whole_lines_twoLines :
    ∃ s, asyncRun 4 4 (fun _ => 0) twoLines = some s ∧
      s.output.flatMap PortOutput.queuedBytes ++ s.thread.printing ++ s.buf.contents 4 =
        ascii "ab\nc\n" := by
  have hrun := (Option.some_get isSome_twoLines).symm
  have hlines : ∀ level log, .output level log ∈ twoLines → log.getLast? = some (byte '\n') := by
    intro level log hlog
    simp only [twoLines, List.mem_cons, AsyncAct.output.injEq, reduceCtorEq, List.not_mem_nil,
      or_false, false_or] at hlog
    rcases hlog with ⟨-, rfl⟩ | ⟨-, rfl⟩ <;> rfl
  have hfits : allFit 4 4 twoLines (elogAsyncInit fun _ => 0) = true := by decide +kernel
  exact ⟨_, hrun, (printed_in_whole_lines (by decide) (by decide) hlines hfits hrun).1⟩

/-- An empty raw log is taken by a buffer that is empty while the thread sleeps. From then on no
call is taken, and the thread never prints again. -/
theorem empty_log_wedges {level : UInt8} (hN : 0 < N) (hpoll : 0 < pollSize)
    (hacts : ∀ level, AsyncAct.output level [] ∉ acts) (hrun : asyncRun N pollSize logBuf acts = some s)
    (hrests : s.Rests N pollSize) (hrunning : s.threadRunning = true) (henabled : s.isEnabled = true)
    (hempty : Async.step N pollSize (.output level []) s = some s₁) (hrest : AsyncAct.deinit ∉ rest)
    (hgoon : run (Async.step N pollSize) rest s₁ = some s') :
    s'.taken = s.taken ∧ s'.thread = .wait ∧
      s'.output.flatMap PortOutput.queuedBytes = s.output.flatMap PortOutput.queuedBytes := by
  obtain ⟨q, h⟩ := Async.inv_of_run hN hpoll hacts hrun
  obtain ⟨hwedged, htaken, houtput⟩ := h.wedged hrests hrunning henabled hempty
  have hend := run_invariant (I := fun s' => s'.Wedged N ∧ s'.taken = s₁.taken ∧
      s'.output.flatMap PortOutput.queuedBytes = s₁.output.flatMap PortOutput.queuedBytes)
    (by
      rintro a ha s s' ⟨hw, ht, ho⟩ hstep
      obtain ⟨hw', ht', ho'⟩ := hw.step (fun he => hrest (he ▸ ha)) hstep
      exact ⟨hw', ht'.trans ht, ho'.trans ho⟩) ⟨hwedged, rfl, rfl⟩ hgoon
  exact ⟨hend.2.1.trans htaken, hend.1.thread, hend.2.2.trans (by rw [houtput])⟩

theorem empty_log_wedges_oneLine :
    ∃ s s₁ s', asyncRun 4 4 (fun _ => 0) [.enabled true, .thread] = some s ∧
      Async.step 4 4 (.output 0 []) s = some s₁ ∧
      run (Async.step 4 4) [.notice, .output 0 (ascii "a\n"), .notice] s₁ = some s' ∧
        s'.taken = s.taken := by
  have hacts : ∀ level, AsyncAct.output level [] ∉ [.enabled true, .thread] := by simp
  have hrest : AsyncAct.deinit ∉ [.notice, .output 0 (ascii "a\n"), .notice] := by simp
  have hfour : 0 < 4 := by decide
  refine ⟨_, _, _, rfl, rfl, rfl, (empty_log_wedges hfour hfour hacts rfl ?_ rfl rfl rfl hrest rfl).1⟩
  rintro a (rfl | rfl | rfl) <;> rfl

end CppJson
