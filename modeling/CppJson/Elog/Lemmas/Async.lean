import CppJson.Elog.Async

/-!
# What the ring buffer holds
-/

namespace CppJson

variable {N size : ℕ} {b : AsyncBuf} {q log : List UInt8}

/-- The buffer of `N` bytes holds `q`, whose first byte is at `read_index`. -/
structure AsyncBuf.Holds (N : ℕ) (b : AsyncBuf) (q : List UInt8) : Prop where
  read_lt : b.readIndex < N
  length_le : q.length ≤ N
  write_eq : b.writeIndex = wrap N (b.readIndex + q.length)
  full_iff : b.bufIsFull = true ↔ q.length = N
  empty_iff : b.bufIsEmpty = true ↔ q = []
  cells : Window N b.logBuf b.readIndex q

theorem AsyncBuf.Holds.used_eq (h : b.Holds N q) : elogAsyncGetBufUsed N b = q.length := by
  have hread := h.read_lt
  have hle := h.length_le
  have hempty : b.bufIsEmpty = true ↔ q.length = 0 := h.empty_iff.trans List.length_eq_zero_iff.symm
  have hfull := h.full_iff
  rw [elogAsyncGetBufUsed, h.write_eq]
  unfold wrap
  cases hf : b.bufIsFull <;> cases he : b.bufIsEmpty <;> simp only [hf, he] at hfull hempty ⊢ <;>
    split_ifs <;> simp_all <;> omega

theorem AsyncBuf.Holds.contents_eq (h : b.Holds N q) : b.contents N = q := by
  refine List.ext_getElem? fun i => ?_
  rw [AsyncBuf.contents, List.getElem?_map, h.used_eq]
  by_cases hi : i < q.length
  · rw [List.getElem?_range hi, Option.map_some, List.getElem?_eq_getElem hi,
      h.cells i _ (List.getElem?_eq_getElem hi)]
  · rw [List.getElem?_eq_none (by simpa using hi), List.getElem?_eq_none (by omega), Option.map_none]

/-! ## Putting -/

/-- Both branches of `async_put_log` copy what fits in two pieces, the second of which may be
empty. -/
theorem asyncPutLog_eq {l : List UInt8} (hl : l = log.take (asyncGetBufSpace N b))
    (hspace : 0 < asyncGetBufSpace N b) (hwrite : b.writeIndex < N) :
    asyncPutLog N log b =
      (l.length,
        { logBuf :=
            memcpy (memcpy b.logBuf b.writeIndex (l.take (N - b.writeIndex))) 0
              (l.drop (N - b.writeIndex))
          writeIndex := wrap N (b.writeIndex + l.length)
          readIndex := b.readIndex
          bufIsFull := if asyncGetBufSpace N b ≤ log.length then true else b.bufIsFull
          bufIsEmpty := false }) := by
  obtain ⟨space, hs⟩ : ∃ space, asyncGetBufSpace N b = space := ⟨_, rfl⟩
  rw [hs] at hl hspace
  have hsize : (if space ≤ log.length then space else log.length) = l.length := by
    rw [hl, List.length_take]
    split_ifs <;> omega
  have htake : log.take l.length = l := by rw [hl, List.length_take, ← List.take_eq_take_min]
  rw [asyncPutLog]
  simp only [hs, hsize, htake]
  rw [if_neg (by omega)]
  by_cases hend : b.writeIndex + l.length < N
  · rw [if_pos hend, List.take_of_length_le (by omega), List.drop_of_length_le (by omega),
      memcpy_nil, wrap_of_lt hend]
  · have hfront : log.take (N - b.writeIndex) = l.take (N - b.writeIndex) := by
      rw [← htake, List.take_take, Nat.min_eq_left (by omega)]
    have hback : (log.drop (N - b.writeIndex)).take (l.length - (N - b.writeIndex)) =
        l.drop (N - b.writeIndex) := by
      rw [← List.drop_take, htake]
    rw [if_neg hend, wrap_of_ge (by omega), hfront, hback]

theorem asyncPutLog_spec (h : b.Holds N q) (hlog : log ≠ []) :
    ∃ b', asyncPutLog N log b = ((log.take (N - q.length)).length, b') ∧
      b'.Holds N (q ++ log.take (N - q.length)) ∧
      ∀ j, N ≤ j → b'.logBuf j = b.logBuf j := by
  have hspace : asyncGetBufSpace N b = N - q.length := by rw [asyncGetBufSpace, h.used_eq]
  have hread := h.read_lt
  have hle := h.length_le
  by_cases hfull : q.length = N
  · -- no space
    have hzero : N - q.length = 0 := by omega
    refine ⟨b, ?_, ?_, fun _ _ => rfl⟩
    · rw [asyncPutLog]
      simp only [hspace, hzero, ↓reduceIte, List.take_zero, List.length_nil]
    · rw [hzero, List.take_zero, List.append_nil]
      exact h
  · obtain ⟨l, hl⟩ : ∃ l, l = log.take (N - q.length) := ⟨_, rfl⟩
    have hlen : l.length = min (N - q.length) log.length := by rw [hl, List.length_take]
    have hpos : 0 < log.length := List.length_pos_iff.mpr hlog
    have hwrite : b.writeIndex < N := by
      rw [h.write_eq]
      exact wrap_lt (by omega)
    have hput := asyncPutLog_eq (l := l) (by rw [hspace, hl]) (by omega) hwrite
    rw [← hl]
    refine ⟨_, hput, ⟨hread, ?_, ?_, ?_, ?_, ?_⟩, ?_⟩
    · rw [List.length_append]
      omega
    · simp only [h.write_eq, List.length_append]
      rw [wrap_wrap_add (by omega), Nat.add_assoc]
    · have hfull' := h.full_iff
      simp only [hspace, List.length_append]
      split_ifs
      · simp only [true_iff]
        omega
      · rw [hfull']
        omega
    · simp only [Bool.false_eq_true, false_iff, List.append_eq_nil_iff, not_and]
      rintro - rfl
      rw [List.length_nil] at hlen
      omega
    · have hcells := h.cells.append (l := l) hread (by omega)
      rw [← h.write_eq] at hcells
      exact hcells
    · intro j hj
      have hback : 0 + (l.drop (N - b.writeIndex)).length ≤ j := by
        rw [List.length_drop]
        omega
      have hfront : b.writeIndex + (l.take (N - b.writeIndex)).length ≤ j := by
        rw [List.length_take]
        omega
      exact (memcpy_of_ge hback).trans (memcpy_of_ge hfront)

/-! ## Getting -/

theorem elogCpyln_front (log : List UInt8) : elogCpyln log <+: log := by
  induction log with
  | nil => exact List.prefix_rfl
  | cons c log ih =>
      rw [elogCpyln]
      split_ifs
      · exact List.prefix_append [c] log
      · exact List.prefix_cons_inj c |>.mpr ih

theorem elogCpyln_ne_nil (h : log ≠ []) : elogCpyln log ≠ [] := by
  cases log with
  | nil => exact absurd rfl h
  | cons c log =>
      rw [elogCpyln]
      split_ifs <;> exact List.cons_ne_nil _ _

/-- All of the log is copied when there is no newline sign in it. -/
theorem elogCpyln_line (log : List UInt8) :
    elogCpyln log = log ∨ (elogCpyln log).getLast? = some (byte '\n') := by
  induction log with
  | nil => exact .inl rfl
  | cons c log ih =>
      rw [elogCpyln]
      split_ifs with hc
      · exact .inr (by rw [hc]; rfl)
      · rcases ih with ih | ih
        · exact .inl (by rw [ih])
        · exact .inr (by rw [List.getLast?_cons, ih, Option.getD_some])

/-- What one copying takes out of `size` bytes of the queue. -/
structure Taken (size : ℕ) (q log : List UInt8) : Prop where
  front : log <+: q
  length_le : log.length ≤ size
  ne_nil : log ≠ []
  line : log.length = size ∨ log.getLast? = some (byte '\n')

theorem taken_elogCpyln (hsize : 0 < size) (hle : size ≤ q.length) :
    Taken size q (elogCpyln (q.take size)) where
  front := (elogCpyln_front _).trans (List.take_prefix size q)
  length_le := by
    have h := (elogCpyln_front (q.take size)).length_le
    rw [List.length_take] at h
    omega
  ne_nil := elogCpyln_ne_nil (by
    rw [← List.length_pos_iff, List.length_take]
    omega)
  line := by
    rcases elogCpyln_line (q.take size) with h | h
    · left
      rw [h, List.length_take]
      omega
    · exact .inr h

theorem copyLine_spec (h : b.Holds N q) (hsize : 0 < size) (hle : size ≤ q.length) :
    ∃ log, copyLine N size b = (log, wrap N (b.readIndex + log.length)) ∧ Taken size q log := by
  have hread := h.read_lt
  have hq := h.length_le
  rw [copyLine]
  by_cases hend : b.readIndex + size < N
  · have htaken := taken_elogCpyln hsize hle
    have hlen := htaken.length_le
    rw [if_pos hend, h.cells.cellsAt_eq hle (by omega)]
    exact ⟨_, by rw [wrap_of_lt (by omega)], htaken⟩
  · -- the copying stops at the end of the array, or goes on at its beginning
    obtain ⟨front, hfront⟩ : ∃ front, front = N - b.readIndex := ⟨_, rfl⟩
    have htaken : Taken front q (elogCpyln (q.take front)) := taken_elogCpyln (by omega) (by omega)
    have hlen := htaken.length_le
    rw [if_neg hend, ← hfront, h.cells.cellsAt_eq (by omega) (by omega)]
    by_cases hwhole : (elogCpyln (q.take front)).length = front
    · have hfirst : elogCpyln (q.take front) = q.take front := by
        refine (elogCpyln_front _).eq_of_length ?_
        rw [hwhole, List.length_take]
        omega
      rw [hfirst] at hwhole htaken
      have hcells := h.cells.cellsAt_wrapped (n := size - front) hread (by omega) hq
      rw [← hfront] at hcells
      simp only [hfirst, hwhole, ↓reduceIte, hcells]
      have hend : N ≤ b.readIndex +
          (q.take front ++ elogCpyln ((q.drop front).take (size - front))).length := by
        rw [List.length_append]
        omega
      refine ⟨_, by rw [wrap_of_ge hend], ?_, ?_, ?_, ?_⟩
      · obtain ⟨rest, hrest⟩ :=
          (elogCpyln_front ((q.drop front).take (size - front))).trans (List.take_prefix _ _)
        exact ⟨rest, by rw [List.append_assoc, hrest, List.take_append_drop]⟩
      · have hback := (elogCpyln_front ((q.drop front).take (size - front))).length_le
        rw [List.length_take] at hback
        rw [List.length_append]
        omega
      · exact List.append_ne_nil_of_left_ne_nil htaken.ne_nil _
      · rcases elogCpyln_line ((q.drop front).take (size - front)) with hback | hback
        · left
          simp only [hback, List.length_append, List.length_take, List.length_drop]
          omega
        · right
          rw [List.getLast?_append, hback, Option.some_or]
    · rw [if_neg hwhole]
      refine ⟨_, by rw [wrap_of_lt (by omega)], htaken.front, by omega, htaken.ne_nil, ?_⟩
      exact .inr (htaken.line.resolve_left hwhole)

theorem elogAsyncGetLineLog_nil (h : b.Holds N []) : elogAsyncGetLineLog N size b = ([], b) := by
  rw [elogAsyncGetLineLog, h.used_eq]
  simp

theorem elogAsyncGetLineLog_spec (h : b.Holds N q) (hsize : 0 < size) (hq : q ≠ []) :
    ∃ log b', elogAsyncGetLineLog N size b = (log, b') ∧ Taken (min size q.length) q log ∧
      b'.Holds N (q.drop log.length) ∧ b'.logBuf = b.logBuf := by
  have hpos : 0 < q.length := List.length_pos_iff.mpr hq
  have hread := h.read_lt
  have hle := h.length_le
  have hmin : (if q.length ≤ size then q.length else size) = min size q.length := by split_ifs <;> omega
  obtain ⟨log, hcopy, htaken⟩ : ∃ log, copyLine N (min size q.length) b =
    (log, wrap N (b.readIndex + log.length)) ∧
      Taken (min size q.length) q log := copyLine_spec h (by omega) (by omega)
  have hlog : 0 < log.length := List.length_pos_iff.mpr htaken.ne_nil
  have hlen := htaken.front.length_le
  have hget : elogAsyncGetLineLog N size b =
      (log, { b with
        readIndex := wrap N (b.readIndex + log.length)
        bufIsEmpty := if q.length = log.length then true else b.bufIsEmpty
        bufIsFull := if log.length ≠ 0 then false else b.bufIsFull }) := by
    rw [elogAsyncGetLineLog, h.used_eq]
    simp only [hmin, hcopy]
    rw [if_neg (by omega)]
  refine ⟨log, _, hget, htaken, ⟨?_, ?_, ?_, ?_, ?_, ?_⟩, rfl⟩
  · exact wrap_lt (by omega)
  · rw [List.length_drop]
    omega
  · simp only [h.write_eq, List.length_drop]
    rw [wrap_wrap_add (by omega), show b.readIndex + log.length + (q.length - log.length) =
      b.readIndex + q.length by omega]
  · simp only [List.length_drop]
    rw [if_pos (by omega)]
    simp only [Bool.false_eq_true, false_iff]
    omega
  · have hempty := h.empty_iff
    simp only [List.drop_eq_nil_iff]
    split_ifs with hall
    · simp [hall]
    · rw [hempty]
      simp only [hq, false_iff]
      omega
  · exact h.cells.drop hread hle

end CppJson
