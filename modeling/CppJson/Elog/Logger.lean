import CppJson.Libc.Bytes
import CppJson.Libc.Double
import CppJson.Elog.Async
import Mathlib.Data.List.Infix

/-!
# The logger

`elog.c` with `elog_strcpy` of `elog_utils.c`, as `elog_cfg.h` configures them: asynchronous output,
no colors. The functions run in one thread, and `none` is a call that never returns: at an assertion
that fails without a hook, or at the mutex of a pthread port that the thread itself has not given
back.
-/

namespace CppJson

def elogLvlVerbose : UInt8 := 5

def elogFilterLvlSilent : UInt8 := 0
def elogFilterLvlAll : UInt8 := elogLvlVerbose

def elogLineBufSize : ℕ := 512
def elogLineNumMaxLen : ℕ := 5
def elogFilterTagMaxLen : ℕ := 30
def elogFilterKwMaxLen : ℕ := 16
def elogFilterTagLvlMaxNum : ℕ := 5

/-! ## C strings -/

/-- `strncpy` to a buffer that ends in a NUL. -/
def CStr.take (s : CStr) (n : ℕ) : CStr :=
  ⟨s.bytes.take n, fun h => s.nul_free (List.mem_of_mem_take h)⟩

/-- `strncmp` finds no difference. -/
def strncmpEq (s t : CStr) (n : ℕ) : Bool := s.bytes.take n = t.bytes.take n

/-- `strstr` finds `needle`. -/
def strstr (hay needle : CStr) : Bool := needle.bytes <:+: hay.bytes

/-! ## The state -/

structure ElogTagLvlFilter where
  level : UInt8
  tag : CStr
  tagUseFlag : Bool

structure ElogFilter where
  level : UInt8
  tag : CStr
  keyword : CStr
  tagLvl : List ElogTagLvlFilter

structure EasyLogger where
  filter : ElogFilter
  /-- The format bits that are set, for every level. -/
  enabledFmtSet : UInt8 → UInt64
  initOk : Bool
  outputEnabled : Bool
  outputLockEnabled : Bool
  outputIsLockedBeforeEnable : Bool
  outputIsLockedBeforeDisable : Bool
  /-- The mutex of `elog_port.c` is taken. -/
  portLocked : Bool
  /-- The memory from `log_buf` on. -/
  logBuf : ℕ → UInt8
  /-- What was passed to `elog_async_output`. -/
  output : List (UInt8 × List UInt8)

def noTagLvl : ElogTagLvlFilter := ⟨elogFilterLvlSilent, ⟨[], List.not_mem_nil⟩, false⟩

/-- The state after `elog_init`, with the memory from `log_buf` on. -/
def elogInit (logBuf : ℕ → UInt8) : EasyLogger where
  filter :=
    { level := elogLvlVerbose
      tag := ⟨[], List.not_mem_nil⟩
      keyword := ⟨[], List.not_mem_nil⟩
      tagLvl := List.replicate elogFilterTagLvlMaxNum noTagLvl }
  enabledFmtSet _ := 0
  initOk := true
  outputEnabled := false
  outputLockEnabled := true
  outputIsLockedBeforeEnable := false
  outputIsLockedBeforeDisable := false
  portLocked := false
  logBuf := logBuf
  output := []

/-! ## The lock -/

def elogPortOutputLock (s : EasyLogger) : Option EasyLogger :=
  if s.portLocked then none else some { s with portLocked := true }

def elogPortOutputUnlock (s : EasyLogger) : EasyLogger := { s with portLocked := false }

def elogOutputLock (s : EasyLogger) : Option EasyLogger :=
  if s.outputLockEnabled then do
    let s ← elogPortOutputLock s
    return { s with outputIsLockedBeforeDisable := true }
  else some { s with outputIsLockedBeforeEnable := true }

def elogOutputUnlock (s : EasyLogger) : EasyLogger :=
  if s.outputLockEnabled then { elogPortOutputUnlock s with outputIsLockedBeforeDisable := false }
  else { s with outputIsLockedBeforeEnable := false }

def elogOutputLockEnabled (enabled : Bool) (s : EasyLogger) : Option EasyLogger :=
  let s := { s with outputLockEnabled := enabled }
  if s.outputLockEnabled then
    if !s.outputIsLockedBeforeDisable && s.outputIsLockedBeforeEnable then elogPortOutputLock s
    else if s.outputIsLockedBeforeDisable && !s.outputIsLockedBeforeEnable then
      some (elogPortOutputUnlock s)
    else some s
  else some s

/-! ## The filters -/

def elogSetOutputEnabled (enabled : Bool) (s : EasyLogger) : EasyLogger :=
  { s with outputEnabled := enabled }

def elogSetFmt (level : UInt8) (set : UInt64) (s : EasyLogger) : Option EasyLogger :=
  if level ≤ elogLvlVerbose then
    some { s with enabledFmtSet := Function.update s.enabledFmtSet level set }
  else none

def elogSetFilterLvl (level : UInt8) (s : EasyLogger) : Option EasyLogger :=
  if level ≤ elogLvlVerbose then some { s with filter := { s.filter with level } } else none

def elogSetFilterTag (tag : CStr) (s : EasyLogger) : EasyLogger :=
  { s with filter := { s.filter with tag := tag.take elogFilterTagMaxLen } }

def elogSetFilterKw (keyword : CStr) (s : EasyLogger) : EasyLogger :=
  { s with filter := { s.filter with keyword := keyword.take elogFilterKwMaxLen } }

/-- The loop over `tag_lvl` that stops at the filter of `tag`. -/
def findTagLvl (tag : CStr) (tagLvl : List ElogTagLvlFilter) : Option ℕ :=
  tagLvl.findIdx? fun e => e.tagUseFlag && strncmpEq tag e.tag elogFilterTagMaxLen

def setTagLvl (tag : CStr) (level : UInt8) (tagLvl : List ElogTagLvlFilter) : List ElogTagLvlFilter :=
  match findTagLvl tag tagLvl with
  | some i =>
      if level = elogFilterLvlAll then tagLvl.set i noTagLvl
      else tagLvl.modify i fun e => { e with level }
  | none =>
      if level ≠ elogFilterLvlAll then
        match tagLvl.findIdx? fun e => !e.tagUseFlag with
        | some i => tagLvl.set i ⟨level, tag.take elogFilterTagMaxLen, true⟩
        | none => tagLvl
      else tagLvl

/-- The mutex is taken whether or not the lock is enabled, but given back only if it is. -/
def elogSetFilterTagLvl (tag : CStr) (level : UInt8) (s : EasyLogger) : Option EasyLogger :=
  if level ≤ elogLvlVerbose then
    if !s.initOk then some s
    else do
      let s ← elogPortOutputLock s
      return elogOutputUnlock
        { s with filter := { s.filter with tagLvl := setTagLvl tag level s.filter.tagLvl } }
  else none

def getTagLvl (tag : CStr) (tagLvl : List ElogTagLvlFilter) : UInt8 :=
  match (findTagLvl tag tagLvl).bind fun i => tagLvl[i]? with
  | some e => e.level
  | none => elogFilterLvlAll

def elogGetFilterTagLvl (tag : CStr) (s : EasyLogger) : Option (UInt8 × EasyLogger) :=
  if !s.initOk then some (elogFilterLvlAll, s)
  else do
    let s ← elogPortOutputLock s
    return (getTagLvl tag s.filter.tagLvl, elogOutputUnlock s)

/-! ## The line -/

def elogFmtLvl : UInt64 := 1
def elogFmtTag : UInt64 := 2
def elogFmtTime : UInt64 := 4
def elogFmtPInfo : UInt64 := 8
def elogFmtTInfo : UInt64 := 16
def elogFmtDir : UInt64 := 32
def elogFmtFunc : UInt64 := 64
def elogFmtLine : UInt64 := 128

def getFmtEnabled (s : EasyLogger) (level : UInt8) (set : UInt64) : Bool :=
  s.enabledFmtSet level &&& set ≠ 0

def levelOutputInfo (level : UInt8) : List UInt8 :=
  match level.toNat with
  | 0 => ascii "A/"
  | 1 => ascii "E/"
  | 2 => ascii "W/"
  | 3 => ascii "I/"
  | 4 => ascii "D/"
  | _ => ascii "V/"

/-- What the functions of `elog_port.c` return. -/
structure ElogPort where
  time : CStr
  pInfo : CStr
  tInfo : CStr

/-- What a call of `elog_output` is about. -/
structure ElogCall where
  level : UInt8
  tag : CStr
  file : CStr
  func : CStr
  line : ℤ
  port : ElogPort

/-- The strings that are copied in front of the text, one after the other. -/
def ElogCall.header (c : ElogCall) (enabled : UInt64 → Bool) : List (List UInt8) :=
  (if enabled elogFmtLvl then [levelOutputInfo c.level] else []) ++
  (if enabled elogFmtTag then
    [c.tag.bytes] ++
    (if c.tag.bytes.length ≤ elogFilterTagMaxLen / 2 then
      [List.replicate (elogFilterTagMaxLen / 2 - c.tag.bytes.length) (byte ' ')] else []) ++
    [ascii " "] else []) ++
  (if enabled (elogFmtTime ||| elogFmtPInfo ||| elogFmtTInfo) then
    [ascii "["] ++
    (if enabled elogFmtTime then
      [c.port.time.bytes] ++
      (if enabled (elogFmtPInfo ||| elogFmtTInfo) then [ascii " "] else []) else []) ++
    (if enabled elogFmtPInfo then
      [c.port.pInfo.bytes] ++ (if enabled elogFmtTInfo then [ascii " "] else []) else []) ++
    (if enabled elogFmtTInfo then [c.port.tInfo.bytes] else []) ++
    [ascii "] "] else []) ++
  (if enabled (elogFmtDir ||| elogFmtFunc ||| elogFmtLine) then
    [ascii "("] ++
    (if enabled elogFmtDir then
      [c.file.bytes] ++
      (if enabled elogFmtFunc then [ascii ":"]
        else if enabled elogFmtLine then [ascii " "] else []) else []) ++
    (if enabled elogFmtLine then
      [(sprintfD c.line).take (elogLineNumMaxLen - 1)] ++
      (if enabled elogFmtFunc then [ascii " "] else []) else []) ++
    (if enabled elogFmtFunc then [c.func.bytes] else []) ++
    [ascii ")"] else [])

/-- `log_buf` with `log_len`. -/
structure LineBuf where
  logBuf : ℕ → UInt8
  logLen : ℕ

/-- The bytes that are copied. -/
def elogStrcpy : ℕ → List UInt8 → List UInt8
  | _, [] => []
  | curLen, c :: src => if curLen < elogLineBufSize then c :: elogStrcpy (curLen + 1) src else []

def LineBuf.strcpy (l : LineBuf) (src : List UInt8) : LineBuf :=
  let copied := elogStrcpy l.logLen src
  ⟨memcpy l.logBuf l.logLen copied, l.logLen + copied.length⟩

/-- What `vsnprintf` does: it writes the text as far as there is room, or it returns a negative
value and leaves `rest` behind. -/
inductive Formatted where
  | text (text : CStr)
  | failed (rest : List UInt8)

/-- `vsnprintf` behind what is there, and the length that is calculated from its result. -/
def LineBuf.vsnprintf (l : LineBuf) (args : Formatted) : LineBuf :=
  let room := elogLineBufSize - l.logLen
  match args with
  | .text text =>
      ⟨if room = 0 then l.logBuf else memcpy l.logBuf l.logLen (text.bytes.take (room - 1) ++ [0]),
        if l.logLen + text.bytes.length ≤ elogLineBufSize then l.logLen + text.bytes.length
          else elogLineBufSize⟩
  | .failed rest => ⟨memcpy l.logBuf l.logLen (rest.take room), elogLineBufSize⟩

/-- Space for the newline sign. -/
def LineBuf.reserve (l : LineBuf) : LineBuf :=
  if l.logLen + 1 > elogLineBufSize then ⟨l.logBuf, elogLineBufSize - 1⟩ else l

/-- The keyword filter. -/
def LineBuf.hasKeyword (l : LineBuf) (keyword : CStr) : Bool :=
  keyword.bytes = [] || strstr (cstr (cellsAt (memcpy l.logBuf l.logLen [0]) 0 (l.logLen + 1))) keyword

/-- The line without its newline sign. -/
def packageLine (s : EasyLogger) (c : ElogCall) (args : Formatted) : LineBuf :=
  (((c.header (getFmtEnabled s c.level)).foldl LineBuf.strcpy ⟨s.logBuf, 0⟩).vsnprintf args).reserve

def elogOutput (c : ElogCall) (args : Formatted) (s : EasyLogger) : Option EasyLogger :=
  if c.level ≤ elogLvlVerbose then
    if !s.outputEnabled then some s
    else if c.level > s.filter.level then some s
    else do
      let (tagLvl, s) ← elogGetFilterTagLvl c.tag s
      if c.level > tagLvl then return s
      else if !strstr c.tag s.filter.tag then return s
      else
        let s ← elogOutputLock s
        let l := packageLine s c args
        if !l.hasKeyword s.filter.keyword then
          return elogOutputUnlock { s with logBuf := memcpy l.logBuf l.logLen [0] }
        else
          let l := l.strcpy (ascii "\n")
          return elogOutputUnlock
            { s with
              logBuf := l.logBuf
              output := s.output ++ [(c.level, cellsAt l.logBuf 0 l.logLen)] }
  else none

def elogRaw (args : Formatted) (s : EasyLogger) : Option EasyLogger :=
  if !s.outputEnabled then some s
  else do
    let s ← elogOutputLock s
    let l := LineBuf.vsnprintf ⟨s.logBuf, 0⟩ args
    return elogOutputUnlock
      { s with
        logBuf := l.logBuf
        output := s.output ++ [(elogLvlAssert, cellsAt l.logBuf 0 l.logLen)] }

/-! ## Reading a line -/

/-- `elog_find_lvl`: −1 when it finds none. -/
def elogFindLvl (s : EasyLogger) (log : List UInt8) : Option ℤ :=
  if [0, 1, 2, 3, 4, 5].all fun level => getFmtEnabled s level elogFmtLvl then
    some <|
      if log.head? = some (byte 'A') then 0
      else if log.head? = some (byte 'E') then 1
      else if log.head? = some (byte 'W') then 2
      else if log.head? = some (byte 'I') then 3
      else if log.head? = some (byte 'D') then 4
      else if log.head? = some (byte 'V') then 5
      else -1
  else none

/-- `elog_find_tag`: the `tag_len` bytes at the address that it returns, or the inner `none` for
NULL. -/
def elogFindTag (s : EasyLogger) (log : List UInt8) (lvl : UInt8) : Option (Option (List UInt8)) :=
  if lvl ≤ elogLvlVerbose ∧ getFmtEnabled s lvl elogFmtTag then
    let tag := log.drop (levelOutputInfo lvl).length
    some <|
      match (tag.take elogFilterTagMaxLen).findIdx? (· = byte ' ') with
      | some n => some (tag.take n)
      | none => none
  else none

/-! ## Runs -/

/-- The calls of a run. `elog_hexdump` is none of them: its loop over a `uint16_t` need not end. -/
inductive ElogAct where
  | setOutputEnabled (enabled : Bool)
  | outputLockEnabled (enabled : Bool)
  | setFmt (level : UInt8) (set : UInt64)
  | setFilterLvl (level : UInt8)
  | setFilterTag (tag : CStr)
  | setFilterKw (keyword : CStr)
  | setFilterTagLvl (tag : CStr) (level : UInt8)
  | getFilterTagLvl (tag : CStr)
  | raw (args : Formatted)
  | output (call : ElogCall) (args : Formatted)

def EasyLogger.step : ElogAct → EasyLogger → Option EasyLogger
  | .setOutputEnabled enabled, s => some (elogSetOutputEnabled enabled s)
  | .outputLockEnabled enabled, s => elogOutputLockEnabled enabled s
  | .setFmt level set, s => elogSetFmt level set s
  | .setFilterLvl level, s => elogSetFilterLvl level s
  | .setFilterTag tag, s => some (elogSetFilterTag tag s)
  | .setFilterKw keyword, s => some (elogSetFilterKw keyword s)
  | .setFilterTagLvl tag level, s => elogSetFilterTagLvl tag level s
  | .getFilterTagLvl tag, s => (elogGetFilterTagLvl tag s).map Prod.snd
  | .raw args, s => elogRaw args s
  | .output call args, s => elogOutput call args s

end CppJson
