import ByteMachine.Fault

/-!
# Opcodes

Eight of the 256 bytes are instructions. This module gives the set its order, its bytes and its
mnemonics, and reads a byte back into the instruction it stands for. What the bits of an opcode
byte mean is the subject of `ByteMachine.Opcode.Fields`, what an instruction does that of
`ByteMachine.Opcode.Execution`.
-/

namespace ByteMachine

/-- The instructions of the machine: stop, load a value, print, multiply, compare, and three jumps,
the last two on a condition. -/
inductive Opcode where
  | hlt
  | ldi
  | prn
  | mul
  | cmp
  | jmp
  | jeq
  | jne
  deriving DecidableEq, Repr

namespace Opcode

/-- Every instruction, in the order of the instruction set. -/
def all : List Opcode :=
  [.hlt, .ldi, .prn, .mul, .cmp, .jmp, .jeq, .jne]

/-- Place of an instruction in the instruction set, from zero. -/
def index : Opcode → Nat
  | .hlt => 0
  | .ldi => 1
  | .prn => 2
  | .mul => 3
  | .cmp => 4
  | .jmp => 5
  | .jeq => 6
  | .jne => 7

/-- The byte that encodes an instruction. -/
def byte : Opcode → UInt8
  | .hlt => 0b00000001
  | .ldi => 0b10000010
  | .prn => 0b01000111
  | .mul => 0b10100010
  | .cmp => 0b10100111
  | .jmp => 0b01010100
  | .jeq => 0b01010101
  | .jne => 0b01010110

/-- Mnemonic in upper case. -/
def mnemonic : Opcode → String
  | .hlt => "HLT"
  | .ldi => "LDI"
  | .prn => "PRN"
  | .mul => "MUL"
  | .cmp => "CMP"
  | .jmp => "JMP"
  | .jeq => "JEQ"
  | .jne => "JNE"

/-- The instruction that a byte encodes, if it encodes one. -/
def ofByte? (byte : UInt8) : Option Opcode :=
  all.find? fun op => op.byte == byte

/-- The instruction that a byte encodes; any other byte is a fault. -/
def ofByte (byte : UInt8) : Except Fault Opcode :=
  match ofByte? byte with
  | some op => .ok op
  | none => .error (.unknownOpcode byte)

/-- Mnemonic with only its first letter in upper case. -/
def title (op : Opcode) : String :=
  op.mnemonic.toLower.capitalize

/-- One-line listing of the instruction set, in braces. -/
def listing : String :=
  "\x7b" ++ ", ".intercalate (all.map title) ++ "\x7d"

/-- The list of instructions leaves none out. -/
theorem mem_all (op : Opcode) : op ∈ all := by
  cases op <;> decide

/-- An instruction stands at its index. -/
theorem all_getElem?_index (op : Opcode) : all[op.index]? = some op := by
  cases op <;> rfl

/-- Every index is one of the list. -/
theorem index_lt (op : Opcode) : op.index < all.length :=
  (List.getElem?_eq_some_iff.mp op.all_getElem?_index).1

/-- Reading the byte of an instruction gives the instruction. -/
theorem ofByte?_byte (op : Opcode) : ofByte? op.byte = some op := by
  cases op <;> rfl

/-- A byte is read as an instruction exactly when it is that instruction's byte. -/
theorem ofByte?_eq_some_iff {byte : UInt8} {op : Opcode} :
    ofByte? byte = some op ↔ op.byte = byte := by
  constructor
  · intro h
    simpa using List.find?_some h
  · rintro rfl
    exact ofByte?_byte op

/-- Two instructions with one byte are the same. -/
theorem byte_injective {first second : Opcode} (h : first.byte = second.byte) :
    first = second := by
  have := ofByte?_byte first
  rw [h, ofByte?_byte] at this
  exact (Option.some.inj this).symm

end Opcode

end ByteMachine
