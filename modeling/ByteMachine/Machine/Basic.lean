import ByteMachine.Journal
import ByteMachine.Machine.Origins
import ByteMachine.Program.Image
import ByteMachine.Registers

/-!
# The machine

State of the machine and the operations on it that execute nothing: building it, loading a
program, reading and writing memory, and emptying the sink. Loading resets everything but the
configuration and the sink.
-/

namespace ByteMachine

/-- How a machine executes: whether it stops when execution returns to the origin of an earlier
jump, after how many instructions it fails, and whether it reports its state before each of them.
A limit is a number below 2^64. -/
structure Config where
  revisitGuard : Bool := true
  stepLimit : Option Nat := none
  tracing : Bool := false
  deriving DecidableEq, Repr

/-- Whether a machine goes on. -/
inductive Status where
  | running
  | halted
  deriving DecidableEq, Repr

/-- Where the stack pointer rests. No instruction moves it. -/
def stackTop : UInt8 := 0xF4

/-- A machine, with the sink that it prints to. The count of executed instructions is a number below
2^64, so what is said of it holds as long as fewer than 2^64 instructions have been executed. -/
structure Machine where
  config : Config := {}
  counter : Nat := 0
  stackPointer : UInt8 := stackTop
  registers : Registers := {}
  memory : Memory := .zero
  origins : Origins := .empty
  status : Status := .running
  steps : Nat := 0
  sink : Sink := {}
  deriving DecidableEq

/-- What an operation on a machine answers, the machine it leaves and the events it reports, in the
order in which they happened. -/
structure Turn (α : Type) where
  answer : Except Fault α
  machine : Machine
  events : List Event := []

namespace Turn

/-- The same turn with events reported before its own. -/
def reporting {α : Type} (earlier : List Event) (turn : Turn α) : Turn α :=
  { turn with events := earlier ++ turn.events }

end Turn

namespace Machine

/-- A machine with empty memory. -/
def new (config : Config) (sink : Sink) : Machine where
  config := config
  sink := sink

/-- Load a program, forgetting everything but the configuration and the printed text. -/
def load (machine : Machine) (image : Image) : Turn Unit where
  answer := .ok ()
  machine := { new machine.config machine.sink with memory := image.memory }
  events := [.programLoaded image.size]

/-- Read a byte of memory. -/
def readMemory (machine : Machine) (address : Nat) : Turn UInt8 where
  answer := machine.memory.read address
  machine := machine

/-- Write a byte of memory. -/
def writeMemory (machine : Machine) (address : Nat) (value : UInt8) : Turn Unit :=
  match machine.memory.write address value with
  | .ok memory => ⟨.ok (), { machine with memory }, []⟩
  | .error fault => ⟨.error fault, machine, []⟩

/-- Empty the sink. -/
def clearOutput (machine : Machine) : Machine :=
  { machine with sink := machine.sink.cleared }

/-- Bytes in hexadecimal, each behind a blank. -/
def spacedHex (bytes : List UInt8) : List Char :=
  bytes.flatMap fun byte => ' ' :: (Text.upperHex byte.toNat).toList

/-- The three bytes at the program counter, with zeros beyond the end of memory. -/
def window (machine : Machine) : List UInt8 :=
  [0, 1, 2].map fun offset => machine.memory.peek (machine.counter + offset)

/-- State of the machine on one line: program counter, the three bytes there, and the
general-purpose registers. -/
def traceLine (machine : Machine) : String :=
  "TRACE: " ++ Text.upperHex machine.counter ++
    " |" ++ String.ofList (spacedHex machine.window) ++
    " |" ++ String.ofList (spacedHex machine.registers.generalPurpose)

end Machine

end ByteMachine
