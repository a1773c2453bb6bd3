import ByteMachine.Opcode.Basic

/-!
# Fields of an opcode byte

An opcode byte is laid out as `AABCDDDD`: the number of operand bytes, whether the arithmetic
unit does the work, whether the instruction may set the program counter, and an identifier within
the class. Every byte splits this way, also one that is no instruction.
-/

namespace ByteMachine

/-- The parts of an opcode byte: the number of operand bytes (`AA`), whether the instruction belongs
to the arithmetic unit (`B`), whether it may set the program counter (`C`), and its identifier
within the class (`DDDD`). -/
structure Fields where
  operandCount : UInt8
  isArithmetic : Bool
  setsCounter : Bool
  identifier : UInt8
  deriving DecidableEq, Repr

namespace Fields

/-- Split an opcode byte. -/
def ofByte (byte : UInt8) : Fields where
  operandCount := byte >>> 6
  isArithmetic := byte &&& 0b00100000 != 0
  setsCounter := byte &&& 0b00010000 != 0
  identifier := byte &&& 0b00001111

/-- How far the program counter moves when nothing redirects it: past the opcode and its
operands. -/
def increment (fields : Fields) : Nat :=
  fields.operandCount.toNat + 1

end Fields

namespace Opcode

/-- Fields of an instruction's byte. -/
def fields (op : Opcode) : Fields :=
  Fields.ofByte op.byte

/-- An instruction occupies at most three bytes. -/
theorem increment_fields_le (op : Opcode) : op.fields.increment ≤ 3 := by
  cases op <;> decide

/-- Only the jumps may set the program counter. -/
theorem setsCounter_fields (op : Opcode) :
    op.fields.setsCounter = true ↔ op = .jmp ∨ op = .jeq ∨ op = .jne := by
  cases op <;> decide

end Opcode

end ByteMachine
