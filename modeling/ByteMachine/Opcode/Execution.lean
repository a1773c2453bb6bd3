import ByteMachine.Opcode.Fields
import ByteMachine.Registers

/-!
# Execution of one instruction

What an instruction does with its two operand bytes. It sees the registers and the sink only; the
program counter belongs to the machine, which gets a request. An instruction works in place: when it
fails, registers and sink are left as they are by then.
-/

namespace ByteMachine

/-- What an instruction asks of the machine's control: to go on behind it, to go on at an address,
or to stop. -/
inductive Request where
  | advance
  | jump (target : UInt8)
  | halt
  deriving DecidableEq, Repr

/-- What an instruction leaves: its request or its fault, and either way registers and sink. -/
structure Effect where
  outcome : Except Fault Request
  registers : Registers
  sink : Sink

/-- The work of an instruction on registers, sink and two operand bytes. -/
abbrev Handler : Type := Registers → Sink → UInt8 → UInt8 → Effect

namespace Opcode

/-- Print the value of a register on a line of its own. -/
def print (registers : Registers) (sink : Sink) (a : UInt8) : Effect :=
  match registers.read a with
  | .error fault => ⟨.error fault, registers, sink⟩
  | .ok value =>
    let line := Sink.line value
    let outcome := if sink.fits line then .ok .advance else .error (.output sink.refusal)
    ⟨outcome, registers, sink.write line⟩

/-- Ask for a jump to the address in a register. The register is read only if the jump is
taken. -/
def jumpIf (condition : Bool) (registers : Registers) (a : UInt8) : Except Fault Request := do
  if condition then
    let target ← registers.read a
    return .jump target
  else
    return .advance

/-- Change the registers, and go on. -/
def changing (change : Registers.Change Unit) (registers : Registers) (sink : Sink) : Effect :=
  match change.run registers with
  | .ok () after => ⟨.ok .advance, after, sink⟩
  | .error fault after => ⟨.error fault, after, sink⟩

/-- Execute an instruction on its operand bytes `a` and `b`. -/
def execute (op : Opcode) : Handler := fun registers sink a b =>
  match op with
  | .hlt => ⟨.ok .halt, registers, sink⟩
  | .ldi => changing (Registers.write a b) registers sink
  | .prn => print registers sink a
  | .mul => changing (Registers.compute .mul a b) registers sink
  | .cmp => changing (Registers.compare a b) registers sink
  | .jmp => ⟨jumpIf true registers a, registers, sink⟩
  | .jeq => ⟨jumpIf registers.flags.isEqual registers a, registers, sink⟩
  | .jne => ⟨jumpIf (!registers.flags.isEqual) registers a, registers, sink⟩

/-- A change of the registers comes out the same with any sink. -/
theorem changing_withSink (change : Registers.Change Unit) (registers : Registers)
    (first second : Sink) :
    changing change registers second =
      { changing change registers first with sink := second } := by
  unfold changing
  cases change.run registers <;> rfl

/-- An instruction that does not print comes out the same with any sink. -/
theorem execute_withSink {op : Opcode} (h : op ≠ .prn) (registers : Registers)
    (first second : Sink) (a b : UInt8) :
    op.execute registers second a b =
      { op.execute registers first a b with sink := second } := by
  cases op with
  | prn => exact absurd rfl h
  | hlt | jmp | jeq | jne => rfl
  | ldi | mul | cmp => exact changing_withSink _ registers first second

/-- Only printing touches the sink. -/
theorem execute_sink {op : Opcode} (h : op ≠ .prn) (registers : Registers) (sink : Sink)
    (a b : UInt8) : (op.execute registers sink a b).sink = sink :=
  congrArg Effect.sink (execute_withSink h registers sink sink a b)

end Opcode

end ByteMachine
