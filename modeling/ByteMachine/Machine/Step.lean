import ByteMachine.Machine.Basic
import ByteMachine.Opcode.Dispatch

/-!
# One step

A step of a running machine fetches the opcode and two operand bytes, looks the opcode up in the
dispatch table, lets the handler work, and decides where to go on. All three bytes are fetched
whatever the instruction needs, so no instruction above address 253 can be executed.

The handler works on the machine's own registers and sink. When it fails, the step ends with what it
has left there.
-/

namespace ByteMachine

/-- The bytes of one instruction cycle: the one at the program counter and two operand bytes. -/
structure Fetched where
  opcode : UInt8
  a : UInt8
  b : UInt8
  deriving DecidableEq, Repr

namespace Machine

/-- The step limit, if it has been reached. -/
def reachedLimit? (machine : Machine) : Option Nat :=
  machine.config.stepLimit.filter fun limit => limit ≤ machine.steps

/-- What is reported before an instruction cycle. -/
def traceEvents (machine : Machine) : List Event :=
  if machine.config.tracing then [.traced machine.traceLine] else []

/-- The three bytes at the program counter. -/
def fetch (machine : Machine) : Except Fault Fetched := do
  let opcode ← machine.memory.read machine.counter
  let a ← machine.memory.read (machine.counter + 1)
  let b ← machine.memory.read (machine.counter + 2)
  return ⟨opcode, a, b⟩

/-- Move the program counter behind the instruction. -/
def advance (machine : Machine) (fields : Fields) : Machine :=
  { machine with counter := machine.counter + fields.increment }

/-- Move the program counter to a target, and remember where the jump came from. -/
def jump (machine : Machine) (target : UInt8) : Machine :=
  { machine with
    origins := machine.origins.insert machine.counter
    counter := target.toNat }

/-- Move the program counter as an instruction requests. A jump needs an opcode that may set the
program counter. -/
def proceed (machine : Machine) (fields : Fields) (request : Request) : Machine :=
  match request with
  | .jump target => if fields.setsCounter then machine.jump target else machine.advance fields
  | _ => machine.advance fields

/-- The machine, stopped. -/
def halt (machine : Machine) : Machine :=
  { machine with status := .halted }

/-- Stop or go on after an instruction, as it requests. A request to stop wins over the guard. -/
def settle (machine : Machine) (fields : Fields) (request : Request) : Turn Status :=
  if request = .halt then
    ⟨.ok .halted, machine.halt, [.halted machine.counter machine.steps]⟩
  else if machine.config.revisitGuard ∧ machine.counter ∈ machine.origins then
    ⟨.ok .halted, machine.halt, [.revisited machine.counter]⟩
  else
    ⟨.ok .running, machine.proceed fields request, []⟩

/-- Let a handler work on registers and sink, count the instruction, and stop or go on. -/
def perform (machine : Machine) (handler : Handler) (fetched : Fetched) : Turn Status :=
  let effect := handler machine.registers machine.sink fetched.a fetched.b
  let worked := { machine with registers := effect.registers, sink := effect.sink }
  match effect.outcome with
  | .error fault => ⟨.error fault, worked, []⟩
  | .ok request =>
    settle { worked with steps := machine.steps + 1 } (Fields.ofByte fetched.opcode) request

/-- One instruction cycle. -/
def cycle (machine : Machine) : Turn Status :=
  match machine.fetch with
  | .error fault => ⟨.error fault, machine, []⟩
  | .ok fetched =>
    match DispatchTable.new.lookup fetched.opcode with
    | .error fault => ⟨.error fault, machine, []⟩
    | .ok handler =>
      (machine.perform handler fetched).reporting
        [.dispatched machine.counter fetched.opcode fetched.a fetched.b]

/-- One step. A halted machine stays as it is, also when the step limit has been reached. -/
def step (machine : Machine) : Turn Status :=
  match machine.status with
  | .halted => ⟨.ok .halted, machine, []⟩
  | .running =>
    match machine.reachedLimit? with
    | some limit => ⟨.error (.stepLimitExceeded limit), machine, []⟩
    | none => machine.cycle.reporting machine.traceEvents

/-- A halted machine does nothing. -/
theorem step_halted {machine : Machine} (h : machine.status = .halted) :
    machine.step = ⟨.ok .halted, machine, []⟩ := by
  simp [step, h]

/-- At the step limit a running machine fails and stays as it is. -/
theorem step_limit {machine : Machine} {limit : Nat} (running : machine.status = .running)
    (limited : machine.config.stepLimit = some limit) (reached : limit ≤ machine.steps) :
    machine.step = ⟨.error (.stepLimitExceeded limit), machine, []⟩ := by
  simp [step, reachedLimit?, running, limited, Option.filter, reached]

/-- An instruction cycle needs three bytes. -/
theorem fetch_of_le {machine : Machine} (h : memorySize ≤ machine.counter + 2)
    (within : machine.counter ≤ memorySize) :
    machine.fetch = .error (.outOfRange .memory memorySize) := by
  simp only [fetch, Memory.read]
  by_cases h0 : machine.counter < memorySize
  · by_cases h1 : machine.counter + 1 < memorySize
    · have h2 : machine.counter + 2 = memorySize := by omega
      simp [h0, h1, h2, bind, Except.bind]
    · have h1' : machine.counter + 1 = memorySize := by omega
      simp [h0, h1', bind, Except.bind]
  · have h0' : machine.counter = memorySize := by omega
    simp [h0', bind, Except.bind]

end Machine

end ByteMachine
