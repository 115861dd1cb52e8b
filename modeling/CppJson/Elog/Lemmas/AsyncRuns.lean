import CppJson.Elog.Lemmas.Async

/-!
# The callers and the output thread
-/

namespace CppJson

variable {N pollSize : ℕ} {logBuf : ℕ → UInt8} {s s' : Async} {q : List UInt8} {a : AsyncAct}

/-- What is true in every state that callers and thread come to, where the buffer holds `q`. -/
structure Async.Inv (N pollSize : ℕ) (logBuf : ℕ → UInt8) (s : Async) (q : List UInt8) : Prop where
  holds : s.buf.Holds N q
  taken : s.output.flatMap PortOutput.queuedBytes ++ s.thread.printing ++ q = s.taken
  outside : ∀ j, N ≤ j → s.buf.logBuf j = logBuf j
  queued : ∀ log, .queued log ∈ s.output → log ≠ [] ∧ log.length ≤ pollSize
  printing : s.thread.printing.length ≤ pollSize
  print_ne_nil : s.thread ≠ .print []
  /-- The thread does not go to sleep before the buffer is empty, unless it is to be woken up. -/
  woken : s.thread = .test ∨ s.thread = .wait → q ≠ [] → 0 < s.outputNotice ∨ ∃ putSize > 0,
    s.caller = some putSize
  /-- `elog_async_deinit` wakes the thread up. -/
  stopped : s.thread = .wait → s.threadRunning = false → 0 < s.outputNotice ∨ s.deinitNotice = true
  ended : s.thread = .ended → s.threadRunning = false

theorem Async.inv_init (hN : 0 < N) : (elogAsyncInit logBuf).Inv N pollSize logBuf [] where
  holds := ⟨hN, Nat.zero_le N, by simp [elogAsyncInit, wrap_of_lt hN], by simp [elogAsyncInit]; omega,
    by simp [elogAsyncInit], .nil⟩
  taken := rfl
  outside _ _ := rfl
  queued log h := absurd h (List.not_mem_nil)
  printing := Nat.zero_le pollSize
  print_ne_nil h := by cases h
  woken _ h := absurd rfl h
  stopped h := by cases h
  ended h := by cases h

/-- One step of a caller in the output lock. -/
theorem Async.Inv.output {level : UInt8} {log : List UInt8} (h : s.Inv N pollSize logBuf q)
    (hlog : log ≠ []) (hstep : Async.step N pollSize (.output level log) s = some s') :
    ∃ q', s'.Inv N pollSize logBuf q' ∧
      (s.isEnabled = true →
        q' = q ++ log.take (N - q.length) ∧ s'.taken = s.taken ++ log.take (N - q.length)) := by
  simp only [Async.step] at hstep
  split_ifs at hstep with hlock
  cases hstep
  rw [elogAsyncOutput]
  split_ifs with henabled
  · obtain ⟨b', hput, hholds, houtside⟩ := asyncPutLog_spec h.holds hlog
    have htake : log.take (log.take (N - q.length)).length = log.take (N - q.length) := by
      rw [List.length_take, ← List.take_eq_take_min]
    simp only [hput, htake]
    refine ⟨q ++ log.take (N - q.length), ⟨hholds, ?_, ?_, h.queued, h.printing, h.print_ne_nil, ?_,
      h.stopped, h.ended⟩, fun _ => ⟨rfl, trivial⟩⟩
    · rw [← h.taken, List.append_assoc, List.append_assoc, List.append_assoc]
    · exact fun j hj => (houtside j hj).trans (h.outside j hj)
    · intro hthread hq
      by_cases hzero : log.take (N - q.length) = []
      · rw [hzero, List.append_nil] at hq
        rcases h.woken hthread hq with hw | ⟨n, -, hn⟩
        · exact .inl hw
        · rw [hn] at hlock
          exact absurd rfl hlock
      · exact .inr ⟨_, List.length_pos_iff.mpr hzero, rfl⟩
  · have hdisabled : s.isEnabled = false := by
      by_contra hne
      exact henabled ⟨by simpa using hne, UInt8.le_iff_toNat_le.mpr (Nat.zero_le _)⟩
    refine ⟨q, ⟨h.holds, ?_, h.outside, ?_, h.printing, h.print_ne_nil, h.woken,
      h.stopped, h.ended⟩, ?_⟩
    · simpa [PortOutput.queuedBytes] using h.taken
    · intro l hl
      rcases List.mem_append.mp hl with hl | hl
      · exact h.queued l hl
      · simp at hl
    · intro he
      rw [hdisabled] at he
      cases he

/-! ## The output thread -/

/-- What is left to be done without a further call: every number stands for as many steps at
most. -/
def Async.work (N : ℕ) (s : Async) : ℕ :=
  (if s.caller.isSome then 4 else 0) + (if s.deinitNotice then 4 else 0) + 3 * s.outputNotice +
    2 * (s.buf.contents N).length +
    match s.thread with
    | .test => 1
    | .wait => 0
    | .get => 2
    | .print _ => 3
    | .ended => 0

/-- What the next step of the thread can be while the buffer holds `q`. -/
inductive Async.ThreadStep (N pollSize : ℕ) (s : Async) (q : List UInt8) : Async → Prop where
  | test (h : s.thread = .test) :
      ThreadStep N pollSize s q { s with thread := if s.threadRunning then .wait else .ended }
  | wait (h : s.thread = .wait) (hnotice : 0 < s.outputNotice) :
      ThreadStep N pollSize s q { s with outputNotice := s.outputNotice - 1, thread := .get }
  | empty (h : s.thread = .get) (hq : q = []) : ThreadStep N pollSize s q { s with thread := .test }
  | get {log : List UInt8} {buf : AsyncBuf} (h : s.thread = .get)
      (htaken : Taken (min pollSize q.length) q log)
      (hholds : buf.Holds N (q.drop log.length)) (hsame : buf.logBuf = s.buf.logBuf) :
      ThreadStep N pollSize s q { s with buf, thread := .print log }
  | print {log : List UInt8} (h : s.thread = .print log) :
      ThreadStep N pollSize s q { s with output := s.output ++ [.queued log], thread := .get }

theorem Async.threadStep_of_step (hholds : s.buf.Holds N q) (hpoll : 0 < pollSize)
    (hstep : Async.step N pollSize .thread s = some s') : s.ThreadStep N pollSize q s' := by
  rw [Async.step, asyncOutput] at hstep
  cases hs : s.thread with
  | test =>
      simp only [hs, Option.some.injEq] at hstep
      exact hstep ▸ .test hs
  | wait =>
      simp only [hs] at hstep
      split_ifs at hstep with hzero
      cases hstep
      exact .wait hs (by omega)
  | get =>
      have hlock : ¬s.caller.isSome = true := fun hlock => by simp [hs, hlock] at hstep
      simp only [hs, if_neg hlock, Option.some.injEq] at hstep
      subst hstep
      by_cases hq : q = []
      · subst hq
        rw [elogAsyncGetLineLog_nil hholds]
        exact .empty hs rfl
      · obtain ⟨log, buf, hget, htaken, hholds, hsame⟩ := elogAsyncGetLineLog_spec hholds hpoll hq
        have hlog : log.length ≠ 0 := by simpa using htaken.ne_nil
        simp only [hget, hlog, ne_eq, not_false_eq_true, ↓reduceIte]
        exact .get hs htaken hholds hsame
  | print log =>
      simp only [hs, Option.some.injEq] at hstep
      exact hstep ▸ .print hs
  | ended => simp [hs] at hstep

/-- One step of the thread. What it prints next is what has been in the buffer longest. -/
theorem Async.Inv.thread (h : s.Inv N pollSize logBuf q) (hpoll : 0 < pollSize)
    (hstep : Async.step N pollSize .thread s = some s') :
    ∃ q', s'.Inv N pollSize logBuf q' ∧ s'.work N < s.work N := by
  have htaken := h.taken
  cases Async.threadStep_of_step h.holds hpoll hstep with
  | test hs =>
      rw [hs] at htaken
      refine ⟨q, ⟨h.holds, ?_, h.outside, h.queued, ?_, ?_, ?_, ?_, ?_⟩, ?_⟩
      · cases s.threadRunning <;> exact htaken
      · cases s.threadRunning <;> exact Nat.zero_le pollSize
      · cases s.threadRunning <;> simp
      · exact fun _ => h.woken (.inl hs)
      · intro hw hr
        rw [if_neg (by simpa using hr)] at hw
        cases hw
      · cases s.threadRunning <;> simp
      · simp only [Async.work, hs]
        cases s.threadRunning <;> simp
  | wait hs hnotice =>
      rw [hs] at htaken
      refine ⟨q, ⟨h.holds, htaken, h.outside, h.queued, Nat.zero_le pollSize, by simp, by simp,
        by simp, by simp⟩, ?_⟩
      simp only [Async.work, hs]
      omega
  | empty hs hq =>
      rw [hs] at htaken
      refine ⟨q, ⟨h.holds, htaken, h.outside, h.queued, Nat.zero_le pollSize, by simp, ?_,
        by simp, by simp⟩, ?_⟩
      · exact fun _ hne => absurd hq hne
      · simp [Async.work, hs]
  | @get log buf hs hlog hholds hsame =>
      rw [hs] at htaken
      have hpos : 0 < log.length := List.length_pos_iff.mpr hlog.ne_nil
      have hfront := hlog.front.length_le
      have hsplit : log ++ q.drop log.length = q := by
        obtain ⟨rest, rfl⟩ := hlog.front
        rw [List.drop_left]
      refine ⟨q.drop log.length, ⟨hholds, ?_, ?_, h.queued, ?_, ?_, by simp, by simp, by simp⟩, ?_⟩
      · simp only [OutputThread.printing, List.append_nil] at htaken ⊢
        rw [List.append_assoc, hsplit, htaken]
      · exact fun j hj => by rw [hsame, h.outside j hj]
      · exact Nat.le_trans hlog.length_le (Nat.min_le_left _ _)
      · simpa using hlog.ne_nil
      · simp only [Async.work, hs, hholds.contents_eq, h.holds.contents_eq, List.length_drop]
        omega
  | @print log hs =>
      refine ⟨q, ⟨h.holds, ?_, h.outside, ?_, Nat.zero_le pollSize, by simp, by simp,
        by simp, by simp⟩, ?_⟩
      · simpa [PortOutput.queuedBytes, OutputThread.printing, hs] using htaken
      · intro l hl
        rcases List.mem_append.mp hl with hl | hl
        · exact h.queued l hl
        · obtain rfl : l = log := by simpa using hl
          have hlen := h.printing
          rw [hs] at hlen
          exact ⟨fun he => h.print_ne_nil (by rw [hs, he]), hlen⟩
      · simp [Async.work, hs]

/-- The notices, by a caller that gives the output lock back and by `elog_async_deinit`. -/
theorem Async.Inv.notices (h : s.Inv N pollSize logBuf q) (ha : a = .notice ∨ a = .deinitNotice)
    (hstep : Async.step N pollSize a s = some s') :
    s'.Inv N pollSize logBuf q ∧ s'.work N < s.work N := by
  rcases ha with rfl | rfl
  · simp only [Async.step, Option.map_eq_some_iff] at hstep
    obtain ⟨putSize, hcaller, rfl⟩ := hstep
    refine ⟨⟨h.holds, h.taken, h.outside, h.queued, h.printing, h.print_ne_nil, ?_, ?_, h.ended⟩, ?_⟩
    · intro hthread hq
      left
      rcases h.woken hthread hq with hw | ⟨n, hn, hsome⟩
      · simp only
        split_ifs <;> omega
      · rw [hcaller] at hsome
        cases hsome
        simp only [if_pos hn]
        omega
    · intro hw hr
      rcases h.stopped hw hr with hn | hd
      · left
        simp only
        split_ifs <;> omega
      · exact .inr hd
    · simp only [Async.work, hcaller]
      split_ifs <;> simp_all <;> omega
  · simp only [Async.step] at hstep
    split_ifs at hstep with hd
    cases hstep
    refine ⟨⟨h.holds, h.taken, h.outside, h.queued, h.printing, h.print_ne_nil, ?_, ?_, h.ended⟩, ?_⟩
    · exact fun _ _ => .inl (Nat.succ_pos _)
    · exact fun _ _ => .inl (Nat.succ_pos _)
    · simp only [Async.work, hd]
      split_ifs <;> simp_all <;> omega

/-- Every step keeps the invariant, as long as no empty log is put. -/
theorem Async.Inv.step (h : s.Inv N pollSize logBuf q) (hpoll : 0 < pollSize)
    (ha : ∀ level, a ≠ .output level []) (hstep : Async.step N pollSize a s = some s') :
    ∃ q', s'.Inv N pollSize logBuf q' := by
  cases a with
  | enabled enabled =>
      cases hstep
      exact ⟨q, ⟨h.holds, h.taken, h.outside, h.queued, h.printing, h.print_ne_nil, h.woken,
        h.stopped, h.ended⟩⟩
  | output level log =>
      obtain ⟨q', h', -⟩ := h.output (fun he => ha level (by rw [he])) hstep
      exact ⟨q', h'⟩
  | notice => exact ⟨q, (h.notices (.inl rfl) hstep).1⟩
  | thread =>
      obtain ⟨q', h', -⟩ := h.thread hpoll hstep
      exact ⟨q', h'⟩
  | deinit =>
      simp only [Async.step] at hstep
      split_ifs at hstep
      cases hstep
      exact ⟨q, ⟨h.holds, h.taken, h.outside, h.queued, h.printing, h.print_ne_nil, h.woken,
        fun _ _ => .inr rfl, fun _ => rfl⟩⟩
  | deinitNotice => exact ⟨q, (h.notices (.inr rfl) hstep).1⟩

/-- The invariant at the end of a run. -/
theorem Async.inv_of_run {acts : List AsyncAct} (hN : 0 < N) (hpoll : 0 < pollSize)
    (hacts : ∀ level, AsyncAct.output level [] ∉ acts)
    (hrun : run (Async.step N pollSize) acts (elogAsyncInit logBuf) = some s) :
    ∃ q, s.Inv N pollSize logBuf q := by
  refine run_invariant (I := fun s => ∃ q, s.Inv N pollSize logBuf q) ?_ ⟨[], Async.inv_init hN⟩ hrun
  rintro a ha s s' ⟨q, h⟩ hstep
  exact h.step hpoll (fun level he => hacts level (he ▸ ha)) hstep

/-! ## When nobody calls any more -/

/-- A step that is no call. -/
def AsyncAct.IsOwn (a : AsyncAct) : Prop := a = .thread ∨ a = .notice ∨ a = .deinitNotice

/-- Nothing happens any more without a further call. -/
def Async.Rests (N pollSize : ℕ) (s : Async) : Prop :=
  ∀ a : AsyncAct, a.IsOwn → Async.step N pollSize a s = none

theorem Async.Inv.own (h : s.Inv N pollSize logBuf q) (hpoll : 0 < pollSize) (ha : a.IsOwn)
    (hstep : Async.step N pollSize a s = some s') :
    (∃ q', s'.Inv N pollSize logBuf q') ∧ s'.work N < s.work N := by
  rcases ha with rfl | ha
  · obtain ⟨q', h', hwork⟩ := h.thread hpoll hstep
    exact ⟨⟨q', h'⟩, hwork⟩
  · obtain ⟨h', hwork⟩ := h.notices ha hstep
    exact ⟨⟨q, h'⟩, hwork⟩

/-- At rest the thread waits for a notice, unless it has ended. -/
theorem Async.Rests.thread_eq (h : s.Rests N pollSize) :
    s.caller = none ∧ s.deinitNotice = false ∧
      (s.thread = .wait ∧ s.outputNotice = 0 ∨ s.thread = .ended) := by
  have hthread := h .thread (.inl rfl)
  have hnotice := h .notice (.inr (.inl rfl))
  have hdeinit := h .deinitNotice (.inr (.inr rfl))
  have hcaller : s.caller = none := by simpa [Async.step] using hnotice
  refine ⟨hcaller, by simpa [Async.step] using hdeinit, ?_⟩
  rw [Async.step, asyncOutput] at hthread
  cases hs : s.thread with
  | wait => exact .inl ⟨rfl, by simpa [hs] using hthread⟩
  | ended => exact .inr rfl
  | test => simp [hs] at hthread
  | get => simp [hs, hcaller] at hthread
  | print log => simp [hs] at hthread

theorem Async.Inv.rests (h : s.Inv N pollSize logBuf q) (hrests : s.Rests N pollSize) :
    (s.threadRunning = true → s.output.flatMap PortOutput.queuedBytes = s.taken) ∧
      (s.threadRunning = false → s.thread = .ended) := by
  obtain ⟨hcaller, hdeinit, hthread⟩ := hrests.thread_eq
  constructor
  · intro hrunning
    rcases hthread with ⟨hwait, hzero⟩ | hended
    · have hq : q = [] := by
        by_contra hq
        rcases h.woken (.inr hwait) hq with hw | ⟨n, -, hn⟩
        · omega
        · rw [hcaller] at hn
          cases hn
      have htaken := h.taken
      rw [hq, hwait] at htaken
      simpa [OutputThread.printing] using htaken
    · rw [h.ended hended] at hrunning
      cases hrunning
  · intro hstopped
    rcases hthread with ⟨hwait, hzero⟩ | hended
    · rcases h.stopped hwait hstopped with hn | hd
      · omega
      · rw [hdeinit] at hd
        cases hd
    · exact hended

/-! ## An empty log -/

/-- The buffer is empty, but `buf_is_empty` says that it is not: it counts as full, and the thread
sleeps. -/
structure Async.Wedged (N : ℕ) (s : Async) : Prop where
  space : asyncGetBufSpace N s.buf = 0
  thread : s.thread = .wait
  outputNotice : s.outputNotice = 0
  caller : s.caller = none ∨ s.caller = some 0
  deinitNotice : s.deinitNotice = false

theorem Async.Wedged.step (h : s.Wedged N) (ha : a ≠ .deinit)
    (hstep : Async.step N pollSize a s = some s') :
    s'.Wedged N ∧ s'.taken = s.taken ∧
      s'.output.flatMap PortOutput.queuedBytes = s.output.flatMap PortOutput.queuedBytes := by
  cases a with
  | enabled enabled =>
      cases hstep
      exact ⟨⟨h.space, h.thread, h.outputNotice, h.caller, h.deinitNotice⟩, rfl, rfl⟩
  | output level log =>
      simp only [Async.step] at hstep
      split_ifs at hstep
      cases hstep
      rw [elogAsyncOutput]
      split_ifs
      · have hput : asyncPutLog N log s.buf = (0, s.buf) := by simp [asyncPutLog, h.space]
        rw [hput]
        exact ⟨⟨h.space, h.thread, h.outputNotice, .inr rfl, h.deinitNotice⟩, by simp, rfl⟩
      · exact ⟨⟨h.space, h.thread, h.outputNotice, h.caller, h.deinitNotice⟩, rfl,
          by simp [PortOutput.queuedBytes]⟩
  | notice =>
      simp only [Async.step, Option.map_eq_some_iff] at hstep
      obtain ⟨putSize, hcaller, rfl⟩ := hstep
      have hzero : putSize = 0 := by
        rcases h.caller with hc | hc <;> rw [hc] at hcaller <;> cases hcaller
        rfl
      exact ⟨⟨h.space, h.thread, by simp [hzero, h.outputNotice], .inl rfl, h.deinitNotice⟩, rfl, rfl⟩
  | thread => simp [Async.step, asyncOutput, h.thread, h.outputNotice] at hstep
  | deinit => exact absurd rfl ha
  | deinitNotice => simp [Async.step, h.deinitNotice] at hstep

/-- An empty log is put into an empty buffer. -/
theorem Async.Inv.wedged {level : UInt8} (h : s.Inv N pollSize logBuf q) (hrests : s.Rests N pollSize)
    (hrunning : s.threadRunning = true) (henabled : s.isEnabled = true)
    (hstep : Async.step N pollSize (.output level []) s = some s') :
    s'.Wedged N ∧ s'.taken = s.taken ∧ s'.output = s.output := by
  obtain ⟨hcaller, hdeinit, hthread⟩ := hrests.thread_eq
  have hwait : s.thread = .wait ∧ s.outputNotice = 0 := by
    rcases hthread with hwait | hended
    · exact hwait
    · rw [h.ended hended] at hrunning
      cases hrunning
  have hq : q = [] := by
    by_contra hq
    rcases h.woken (.inr hwait.1) hq with hw | ⟨n, -, hn⟩
    · omega
    · rw [hcaller] at hn
      cases hn
  subst hq
  have hread := h.holds.read_lt
  have hwrite : s.buf.writeIndex = s.buf.readIndex := by
    rw [h.holds.write_eq, List.length_nil, Nat.add_zero, wrap_of_lt hread]
  have hspace : asyncGetBufSpace N s.buf = N := by
    rw [asyncGetBufSpace, h.holds.used_eq, List.length_nil, Nat.sub_zero]
  have hfull : s.buf.bufIsFull = false := by
    by_contra hne
    have := h.holds.full_iff.mp (by simpa using hne)
    rw [List.length_nil] at this
    omega
  have hput : asyncPutLog N [] s.buf = (0, { s.buf with bufIsEmpty := false }) := by
    have hpos : N ≠ 0 := by omega
    have hfits : s.buf.writeIndex < N := by omega
    simp [asyncPutLog, hspace, hpos, hfits]
  have hused : elogAsyncGetBufUsed N { s.buf with bufIsEmpty := false } = N := by
    simp [elogAsyncGetBufUsed, hwrite, hfull]
  simp only [Async.step, hcaller, Option.isSome_none, Bool.false_eq_true, ↓reduceIte,
    Option.some.injEq] at hstep
  subst hstep
  rw [elogAsyncOutput, if_pos ⟨henabled, UInt8.le_iff_toNat_le.mpr (Nat.zero_le _)⟩, hput]
  refine ⟨⟨?_, hwait.1, hwait.2, .inr rfl, hdeinit⟩, by simp, rfl⟩
  rw [asyncGetBufSpace, hused, Nat.sub_self]

end CppJson
