import CppJson.Lib.Ascii
import CppJson.Lib.Ring
import CppJson.Lib.Run

/-!
# Asynchronous output

`elog_async.c` as `elog_cfg.h` configures it: line output through a POSIX thread. The sizes of the
ring buffer and of the buffer that the thread polls into are parameters.
-/

namespace CppJson

/-- `ELOG_LVL_ASSERT`, which is `ELOG_ASYNC_OUTPUT_LVL` too. -/
def elogLvlAssert : UInt8 := 0

/-! ## The ring buffer -/

structure AsyncBuf where
  /-- The memory from `log_buf` on. -/
  logBuf : ℕ → UInt8
  writeIndex : ℕ
  readIndex : ℕ
  bufIsFull : Bool
  bufIsEmpty : Bool

def elogAsyncGetBufUsed (outputBufSize : ℕ) (b : AsyncBuf) : ℕ :=
  if b.writeIndex > b.readIndex then b.writeIndex - b.readIndex
  else if !b.bufIsFull && !b.bufIsEmpty then outputBufSize - (b.readIndex - b.writeIndex)
  else if b.bufIsFull then outputBufSize
  else 0

def asyncGetBufSpace (outputBufSize : ℕ) (b : AsyncBuf) : ℕ :=
  outputBufSize - elogAsyncGetBufUsed outputBufSize b

/-- The number of bytes that were put, with the buffer afterwards. -/
def asyncPutLog (outputBufSize : ℕ) (log : List UInt8) (b : AsyncBuf) : ℕ × AsyncBuf :=
  let space := asyncGetBufSpace outputBufSize b
  if space = 0 then (0, b)
  else
    let size := if space ≤ log.length then space else log.length
    let bufIsFull := if space ≤ log.length then true else b.bufIsFull
    if b.writeIndex + size < outputBufSize then
      (size, { b with
        logBuf := memcpy b.logBuf b.writeIndex (log.take size)
        writeIndex := b.writeIndex + size
        bufIsFull, bufIsEmpty := false })
    else
      let front := outputBufSize - b.writeIndex
      (size, { b with
        logBuf := memcpy (memcpy b.logBuf b.writeIndex (log.take front)) 0
          ((log.drop front).take (size - front))
        writeIndex := b.writeIndex + size - outputBufSize
        bufIsFull, bufIsEmpty := false })

/-- What is copied out of the bytes at `log`: up to the first newline sign, and with it. -/
def elogCpyln : List UInt8 → List UInt8
  | [] => []
  | c :: log => if c = byte '\n' then [c] else c :: elogCpyln log

/-- The two branches of `elog_async_get_line_log` that copy. -/
def copyLine (outputBufSize size : ℕ) (b : AsyncBuf) : List UInt8 × ℕ :=
  if b.readIndex + size < outputBufSize then
    let log := elogCpyln (cellsAt b.logBuf b.readIndex size)
    (log, b.readIndex + log.length)
  else
    let log := elogCpyln (cellsAt b.logBuf b.readIndex (outputBufSize - b.readIndex))
    if log.length = outputBufSize - b.readIndex then
      let log := log ++ elogCpyln (cellsAt b.logBuf 0 (size - log.length))
      (log, b.readIndex + log.length - outputBufSize)
    else (log, b.readIndex + log.length)

/-- The bytes that were copied to `log`, with the buffer afterwards. -/
def elogAsyncGetLineLog (outputBufSize size : ℕ) (b : AsyncBuf) : List UInt8 × AsyncBuf :=
  let used := elogAsyncGetBufUsed outputBufSize b
  if used = 0 ∨ size = 0 then ([], b)
  else
    let line := copyLine outputBufSize (if used ≤ size then used else size) b
    (line.1, { b with
      readIndex := line.2
      bufIsEmpty := if used = line.1.length then true else b.bufIsEmpty
      bufIsFull := if line.1.length ≠ 0 then false else b.bufIsFull })

/-- The bytes that the buffer holds, from `read_index` on. -/
def AsyncBuf.contents (outputBufSize : ℕ) (b : AsyncBuf) : List UInt8 :=
  (List.range (elogAsyncGetBufUsed outputBufSize b)).map fun i =>
    b.logBuf (wrap outputBufSize (b.readIndex + i))

/-! ## The callers and the output thread -/

/-- Where the output thread is. -/
inductive OutputThread where
  /-- In front of the test of `thread_running`. -/
  | test
  /-- At `sem_wait`. -/
  | wait
  /-- In front of `elog_async_get_line_log`. -/
  | get
  /-- In front of `elog_port_output`, with what it has got. -/
  | print (log : List UInt8)
  | ended
deriving DecidableEq

/-- What the thread has got out of the buffer and not printed yet. -/
def OutputThread.printing : OutputThread → List UInt8
  | .print log => log
  | _ => []

/-- A call of `elog_port_output`. -/
inductive PortOutput where
  /-- By a caller, while asynchronous output is disabled. -/
  | direct (log : List UInt8)
  | queued (log : List UInt8)
deriving DecidableEq

def PortOutput.queuedBytes : PortOutput → List UInt8
  | .direct _ => []
  | .queued log => log

structure Async where
  buf : AsyncBuf
  isEnabled : Bool
  threadRunning : Bool
  outputNotice : ℕ
  thread : OutputThread
  /-- The `put_size` of the call that holds the output lock and has not notified the thread yet. -/
  caller : Option ℕ
  /-- `elog_async_deinit` has not notified the thread yet. -/
  deinitNotice : Bool
  output : List PortOutput
  /-- What `async_put_log` has taken. -/
  taken : List UInt8

/-- The state after `elog_async_init`, with the memory from `log_buf` on. -/
def elogAsyncInit (logBuf : ℕ → UInt8) : Async where
  buf := ⟨logBuf, 0, 0, false, true⟩
  isEnabled := false
  threadRunning := true
  outputNotice := 0
  thread := .test
  caller := none
  deinitNotice := false
  output := []
  taken := []

/-- `elog_async_output` up to the notice, by a caller that has just taken the output lock. -/
def elogAsyncOutput (outputBufSize : ℕ) (level : UInt8) (log : List UInt8) (s : Async) : Async :=
  if s.isEnabled ∧ elogLvlAssert ≤ level then
    let put := asyncPutLog outputBufSize log s.buf
    { s with buf := put.2, caller := some put.1, taken := s.taken ++ log.take put.1 }
  else { s with output := s.output ++ [.direct log] }

/-- The next step of `async_output`. It waits for a notice, and for a caller that holds the output
lock. -/
def asyncOutput (outputBufSize pollSize : ℕ) (s : Async) : Option Async :=
  match s.thread with
  | .test => some { s with thread := if s.threadRunning then .wait else .ended }
  | .wait =>
      if s.outputNotice = 0 then none
      else some { s with outputNotice := s.outputNotice - 1, thread := .get }
  | .get =>
      if s.caller.isSome then none
      else
        let got := elogAsyncGetLineLog outputBufSize pollSize s.buf
        some { s with buf := got.2, thread := if got.1.length ≠ 0 then .print got.1 else .test }
  | .print log => some { s with output := s.output ++ [.queued log], thread := .get }
  | .ended => none

inductive AsyncAct where
  | enabled (enabled : Bool)
  /-- A thread takes the output lock and calls `elog_async_output`. -/
  | output (level : UInt8) (log : List UInt8)
  /-- The caller notifies the output thread if something was put, and gives the output lock back. -/
  | notice
  | thread
  | deinit
  | deinitNotice
deriving DecidableEq

def Async.step (outputBufSize pollSize : ℕ) : AsyncAct → Async → Option Async
  | .enabled enabled, s => some { s with isEnabled := enabled }
  | .output level log, s =>
      if s.caller.isSome then none else some (elogAsyncOutput outputBufSize level log s)
  | .notice, s =>
      s.caller.map fun putSize =>
        { s with
          outputNotice := if putSize > 0 then s.outputNotice + 1 else s.outputNotice
          caller := none }
  | .thread, s => asyncOutput outputBufSize pollSize s
  | .deinit, s =>
      if s.threadRunning then some { s with threadRunning := false, deinitNotice := true } else none
  | .deinitNotice, s =>
      if s.deinitNotice then
        some { s with outputNotice := s.outputNotice + 1, deinitNotice := false }
      else none

end CppJson
