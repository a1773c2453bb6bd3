import ByteMachine.Machine.Run
import ByteMachine.Program.File

/-!
# The pipeline of the command

What the command prints and how it exits, given its invocation, the journal setting and the contents
of the program file. Printed output goes to the first channel. The journal and then the error, if
there is one, go to the second; how an entry of the journal is written is a parameter.
-/

namespace ByteMachine

/-- What the surroundings see of a command: its exit status, the text on standard output and the
text on standard error. -/
structure Response where
  exit : Nat
  output : String
  diagnostics : String
  deriving DecidableEq, Repr

namespace CommandLine

open Text (unlines)

/-- A program to run, and how: traced, on beyond earlier jump origins, for at most so many
instructions, with more of the journal shown. -/
structure Invocation where
  program : String
  trace : Bool := false
  allowRevisits : Bool := false
  maxSteps : Option Nat := none
  verbose : Bool := false
  deriving DecidableEq, Repr

namespace Invocation

/-- Configuration of the machine that runs the program. -/
def config (invocation : Invocation) : Config where
  revisitGuard := !invocation.allowRevisits
  stepLimit := invocation.maxSteps
  tracing := invocation.trace

/-- What is shown of the journal. The setting, if there is one, wins over the invocation. -/
def filter (invocation : Invocation) (setting : Option Filter) : Filter :=
  setting.getD (if invocation.verbose || invocation.trace then .upTo .debug else .upTo .warn)

end Invocation

/-- Report of a program that could not be loaded. -/
def loadReport (path : String) (error : LoadError) : List String :=
  ["Load Error: failed to load " ++ path ++ ": " ++ error.message]

/-- Report of a program that failed, with the state of the machine it left. -/
def runReport (machine : Machine) (fault : Fault) : List String :=
  ["Runtime Error: execution stopped at pc 0x" ++ Text.lowerHex machine.counter ++ ": " ++
      fault.message,
   machine.traceLine]

/-- Response of a run behind a journal. -/
def runResponse (journal : String) (turn : Turn Unit) : Response :=
  match turn.answer with
  | .ok () => ⟨0, turn.machine.sink.text, journal⟩
  | .error fault =>
    ⟨1, turn.machine.sink.text, journal ++ unlines (runReport turn.machine fault)⟩

/-- Load a program file and run it; `none` when the program never ends. -/
def execute (entry : Nat → Event → String) (invocation : Invocation) (setting : Option Filter)
    (contents : Except ReadError ByteArray) : Option Response :=
  let journal := (invocation.filter setting).journal entry
  let loaded := ProgramFile.load invocation.program contents
  match loaded.result with
  | .error error =>
    some ⟨1, "", journal loaded.events ++ unlines (loadReport invocation.program error)⟩
  | .ok image =>
    let start := (Machine.new invocation.config {}).load image
    start.machine.run.map fun turn =>
      runResponse (journal (loaded.events ++ start.events ++ turn.events)) turn

end CommandLine

end ByteMachine
