import CppJson.Radio.Program

/-!
# Standard input

The command loop of `main` with the extractions that feed it. `commandLoop` is given the values that
`input` takes; here they come from the characters of the stream and, once extraction fails, from
what the variable holds without a value of its own.
-/

namespace CppJson

/-- `isspace` in the classic locale. -/
def isspace (c : UInt8) : Bool := c = 32 || (9 ≤ c && c ≤ 13)

structure Istream where
  /-- The characters still to come. -/
  chars : List UInt8
  /-- What the uninitialized `input` holds at the extractions that fail, from now on. -/
  leftover : ℕ → UInt8

namespace Istream

/-- `cin >> input`: what `input` holds then. Extraction skips white space and fails at the end of
the stream. -/
def extract (cin : Istream) : UInt8 × Istream :=
  match cin.chars.dropWhile isspace with
  | [] => (cin.leftover 0, ⟨[], fun n => cin.leftover (n + 1)⟩)
  | c :: cs => (c, ⟨cs, cin.leftover⟩)

end Istream

section Loop

variable {ε σ : Type} (run : HsmEvent → Prog ε σ Unit) (stream : Prog ε σ Unit)

/-- The body of the command loop, with `run` for `DT_Run` and `stream` for the output of the
document. -/
def loopBodyOver (input : UInt8) : Prog ε σ Unit := do
  match command input with
  | some event => run event
  | none => pure ()
  stream

theorem loopBody_eq : loopBody = loopBodyOver dtRun streamRoot := rfl

/-- At most `n` rounds of the command loop: true when it returns. -/
def commandRounds : ℕ → Istream → Prog ε σ Bool
  | 0, _ => return false
  | n + 1, cin => do
      let (input, cin) := cin.extract
      if input = byte 'E' then return true
      loopBodyOver run stream input
      commandRounds n cin

end Loop

/-- `main`, for at most `n` rounds of the command loop, with a list of the events that `DT_Run` was
called with. -/
def mainRounds (file : Option (List UInt8)) (writes : List WriteOutcome) (cin : Istream) (n : ℕ) :
    Outcome (Fault RadioFault) (RadioWorld × List HsmEvent) Bool :=
  match dtInit (loadMemory file writes) with
  | .stop e w => .stop e (w, [])
  | .ok () w => (commandRounds (Prog.noting dtRun) (Prog.beside streamRoot) n cin).run (w, [])

end CppJson
