import CppJson.Elog.Lemmas.AsyncRuns

/-!
# Whole lines

Runs in which every call finds room for all of its log, and every log ends with a newline sign.
-/

namespace CppJson

variable {N pollSize : ℕ} {logBuf : ℕ → UInt8} {acts : List AsyncAct} {s s' : Async}
  {q log : List UInt8} {a : AsyncAct}

/-- There is room for all of the log. -/
def AsyncAct.fits (N : ℕ) (s : Async) : AsyncAct → Bool
  | .output _ log => log.length ≤ asyncGetBufSpace N s.buf
  | _ => true

/-- Every call of the run finds room for all of its log. -/
def allFit (N pollSize : ℕ) : List AsyncAct → Async → Bool
  | [], _ => true
  | a :: acts, s => a.fits N s && (Async.step N pollSize a s).all (allFit N pollSize acts)

/-- `is_enabled` behind the step, from what it is in front of it. -/
def AsyncAct.enabledAfter : AsyncAct → Bool → Bool
  | .enabled value, _ => value
  | _, isEnabled => isEnabled

/-- The log that goes to the buffer. -/
def AsyncAct.queuedLog : AsyncAct → Bool → List UInt8
  | .output _ log, true => log
  | _, _ => []

/-- The logs that go to the buffer, one after the other. -/
def queuedLogs : List AsyncAct → Bool → List UInt8
  | [], _ => []
  | a :: acts, isEnabled => a.queuedLog isEnabled ++ queuedLogs acts (a.enabledAfter isEnabled)

/-- A print ends with a newline sign, unless it fills `poll_get_buf`. -/
def IsWhole (pollSize : ℕ) (log : List UInt8) : Prop :=
  log.getLast? = some (byte '\n') ∨ log.length = pollSize

/-- The buffer ends with a newline sign, and so do the prints. -/
structure Async.Whole (pollSize : ℕ) (s : Async) (q : List UInt8) : Prop where
  contents : q ≠ [] → q.getLast? = some (byte '\n')
  queued : ∀ log, .queued log ∈ s.output → IsWhole pollSize log
  print : ∀ log, s.thread = .print log → IsWhole pollSize log

/-- What is taken out of whole lines is whole, and so is what stays behind. -/
theorem Taken.whole (h : Taken (min pollSize q.length) q log)
    (hq : q ≠ [] → q.getLast? = some (byte '\n')) :
    IsWhole pollSize log ∧
      (q.drop log.length ≠ [] → (q.drop log.length).getLast? = some (byte '\n')) := by
  have hne : q ≠ [] := fun hnil => h.ne_nil (List.prefix_nil.mp (hnil ▸ h.front))
  constructor
  · rcases h.line with hsize | hline
    · rcases Nat.le_total pollSize q.length with hle | hle
      · right
        rw [hsize, Nat.min_eq_left hle]
      · -- everything is taken
        have hall : log = q := h.front.eq_of_length (by rw [hsize, Nat.min_eq_right hle])
        exact .inl (by rw [hall, hq hne])
    · exact .inl hline
  · intro hrest
    have hlt : ¬q.length ≤ log.length := fun hle => hrest (List.drop_eq_nil_of_le hle)
    rw [List.getLast?_drop, if_neg hlt, hq hne]

/-- One step of a caller in the output lock. -/
theorem Async.Inv.whole_output {level : UInt8} (h : s.Inv N pollSize logBuf q)
    (hwhole : s.Whole pollSize q) (hline : log.getLast? = some (byte '\n'))
    (hfits : (AsyncAct.output level log).fits N s = true)
    (hstep : Async.step N pollSize (.output level log) s = some s') :
    (∃ q', s'.Inv N pollSize logBuf q' ∧ s'.Whole pollSize q') ∧
      s'.taken = s.taken ++ (AsyncAct.output level log).queuedLog s.isEnabled ∧
        s'.isEnabled = s.isEnabled := by
  have hlog : log ≠ [] := by
    rintro rfl
    cases hline
  obtain ⟨q', h', hput⟩ := h.output hlog hstep
  have hroom : log.take (N - q.length) = log := by
    rw [AsyncAct.fits, asyncGetBufSpace, h.holds.used_eq, decide_eq_true_eq] at hfits
    exact List.take_of_length_le hfits
  rw [hroom] at hput
  have hq' := h'.holds.contents_eq
  simp only [Async.step] at hstep
  split_ifs at hstep with hlock
  cases hstep
  rw [elogAsyncOutput] at h' hput hq' ⊢
  split_ifs at h' hput hq' ⊢ with henabled
  · obtain ⟨rfl, htaken⟩ := hput henabled.1
    refine ⟨⟨_, h', fun _ => ?_, hwhole.queued, hwhole.print⟩, ?_, rfl⟩
    · rw [List.getLast?_append, hline, Option.some_or]
    · rw [htaken, henabled.1, AsyncAct.queuedLog]
  · have hdisabled : s.isEnabled = false := by
      by_contra hne
      exact henabled ⟨by simpa using hne, UInt8.le_iff_toNat_le.mpr (Nat.zero_le _)⟩
    obtain rfl : q = q' := h.holds.contents_eq.symm.trans hq'
    refine ⟨⟨q, h', hwhole.contents, fun l hl => ?_, hwhole.print⟩, ?_, rfl⟩
    · exact hwhole.queued l (by simpa using hl)
    · simp [hdisabled, AsyncAct.queuedLog]

/-- One step of the thread. -/
theorem Async.Inv.whole_thread (h : s.Inv N pollSize logBuf q) (hwhole : s.Whole pollSize q)
    (hpoll : 0 < pollSize) (hstep : Async.step N pollSize .thread s = some s') :
    (∃ q', s'.Inv N pollSize logBuf q' ∧ s'.Whole pollSize q') ∧ s'.taken = s.taken ∧
      s'.isEnabled = s.isEnabled := by
  obtain ⟨q', h', -⟩ := h.thread hpoll hstep
  have hq' := h'.holds.contents_eq
  have hq := h.holds.contents_eq
  cases Async.threadStep_of_step h.holds hpoll hstep with
  | test hs =>
      obtain rfl : q = q' := hq.symm.trans hq'
      refine ⟨⟨q, h', hwhole.contents, hwhole.queued, ?_⟩, rfl, rfl⟩
      cases s.threadRunning <;> simp
  | wait | empty =>
      obtain rfl : q = q' := hq.symm.trans hq'
      exact ⟨⟨q, h', hwhole.contents, hwhole.queued, by simp⟩, rfl, rfl⟩
  | @get log buf hs htaken hholds =>
      obtain rfl : q.drop log.length = q' := hholds.contents_eq.symm.trans hq'
      obtain ⟨hlog, hrest⟩ := htaken.whole hwhole.contents
      refine ⟨⟨_, h', hrest, hwhole.queued, fun l hl => ?_⟩, rfl, rfl⟩
      cases hl
      exact hlog
  | @print log hs =>
      obtain rfl : q = q' := hq.symm.trans hq'
      refine ⟨⟨q, h', hwhole.contents, fun l hl => ?_, by simp⟩, rfl, rfl⟩
      rcases List.mem_append.mp hl with hl | hl
      · exact hwhole.queued l hl
      · obtain rfl : l = log := by simpa using hl
        exact hwhole.print l hs

/-- A step that touches neither buffer nor thread. -/
theorem Async.Inv.whole_frame (h : s.Inv N pollSize logBuf q) (hwhole : s.Whole pollSize q)
    (h' : ∃ q', s'.Inv N pollSize logBuf q') (hbuf : s'.buf = s.buf) (hout : s'.output = s.output)
    (hthread : s'.thread = s.thread) : ∃ q', s'.Inv N pollSize logBuf q' ∧ s'.Whole pollSize q' := by
  obtain ⟨q', h'⟩ := h'
  obtain rfl : q = q' := by rw [← h.holds.contents_eq, ← hbuf, h'.holds.contents_eq]
  exact ⟨q, h', ⟨hwhole.contents, hout ▸ hwhole.queued, hthread ▸ hwhole.print⟩⟩

/-- Every step of such a run. -/
theorem Async.Inv.whole_step (h : s.Inv N pollSize logBuf q) (hwhole : s.Whole pollSize q)
    (hpoll : 0 < pollSize)
    (hline : ∀ level log, a = .output level log → log.getLast? = some (byte '\n'))
    (hfits : a.fits N s = true) (hstep : Async.step N pollSize a s = some s') :
    (∃ q', s'.Inv N pollSize logBuf q' ∧ s'.Whole pollSize q') ∧
      s'.taken = s.taken ++ a.queuedLog s.isEnabled ∧
      s'.isEnabled = a.enabledAfter s.isEnabled := by
  have hinv : (∀ level log, a ≠ .output level log) → ∃ q', s'.Inv N pollSize logBuf q' :=
    fun ha => h.step hpoll (fun level => ha level []) hstep
  cases a with
  | enabled enabled =>
      cases hstep
      exact ⟨h.whole_frame hwhole (hinv (by simp)) rfl rfl rfl, (List.append_nil _).symm, rfl⟩
  | output level log => exact h.whole_output hwhole (hline level log rfl) hfits hstep
  | notice =>
      simp only [Async.step, Option.map_eq_some_iff] at hstep
      obtain ⟨putSize, -, rfl⟩ := hstep
      exact ⟨h.whole_frame hwhole (hinv (by simp)) rfl rfl rfl, (List.append_nil _).symm, rfl⟩
  | thread =>
      obtain ⟨h', htaken, henabled⟩ := h.whole_thread hwhole hpoll hstep
      exact ⟨h', htaken.trans (List.append_nil _).symm, henabled⟩
  | deinit =>
      simp only [Async.step] at hstep
      split_ifs at hstep
      cases hstep
      exact ⟨h.whole_frame hwhole (hinv (by simp)) rfl rfl rfl, (List.append_nil _).symm, rfl⟩
  | deinitNotice =>
      simp only [Async.step] at hstep
      split_ifs at hstep
      cases hstep
      exact ⟨h.whole_frame hwhole (hinv (by simp)) rfl rfl rfl, (List.append_nil _).symm, rfl⟩

/-- The whole run. -/
theorem Async.Inv.whole_run (h : s.Inv N pollSize logBuf q) (hwhole : s.Whole pollSize q)
    (hpoll : 0 < pollSize)
    (hlines : ∀ level log, .output level log ∈ acts → log.getLast? = some (byte '\n'))
    (hfits : allFit N pollSize acts s = true)
    (hrun : run (Async.step N pollSize) acts s = some s') :
    ∃ q', s'.Inv N pollSize logBuf q' ∧ s'.Whole pollSize q' ∧
      s'.taken = s.taken ++ queuedLogs acts s.isEnabled := by
  induction acts generalizing s q with
  | nil =>
      cases hrun
      exact ⟨q, h, hwhole, (List.append_nil _).symm⟩
  | cons a acts ih =>
      obtain ⟨s₁, hstep, hrun⟩ := run_cons_eq_some.mp hrun
      rw [allFit, hstep, Bool.and_eq_true] at hfits
      obtain ⟨⟨q₁, h₁, hwhole₁⟩, htaken₁, henabled₁⟩ := h.whole_step hwhole hpoll
        (fun level log ha => hlines level log (ha ▸ List.mem_cons_self)) hfits.1 hstep
      obtain ⟨q', h', hwhole', htaken'⟩ := ih h₁ hwhole₁
        (fun level log hmem => hlines level log (List.mem_cons_of_mem a hmem)) hfits.2 hrun
      refine ⟨q', h', hwhole', ?_⟩
      rw [htaken', htaken₁, henabled₁, queuedLogs, List.append_assoc]

/-- From the initialisation on. -/
theorem Async.whole_of_run (hN : 0 < N) (hpoll : 0 < pollSize)
    (hlines : ∀ level log, .output level log ∈ acts → log.getLast? = some (byte '\n'))
    (hfits : allFit N pollSize acts (elogAsyncInit logBuf) = true)
    (hrun : run (Async.step N pollSize) acts (elogAsyncInit logBuf) = some s) :
    ∃ q, s.Inv N pollSize logBuf q ∧ s.Whole pollSize q ∧ s.taken = queuedLogs acts false := by
  have hinit : (elogAsyncInit logBuf).Whole pollSize [] := by
    constructor <;> simp [elogAsyncInit]
  obtain ⟨q, h, hwhole, htaken⟩ := (Async.inv_init hN).whole_run hinit hpoll hlines hfits hrun
  exact ⟨q, h, hwhole, htaken.trans (List.nil_append _)⟩

/-! ## Calls of the logger -/

/-- What is passed to `elog_async_output`. -/
def AsyncAct.passed : AsyncAct → Option (UInt8 × List UInt8)
  | .output level log => some (level, log)
  | _ => none

end CppJson
