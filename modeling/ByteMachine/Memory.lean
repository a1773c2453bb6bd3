import ByteMachine.Fault

/-!
# Memory

256 bytes, addressed by numbers of any size. An address beyond the end is a fault for a read or a
write and a zero for a look.
-/

namespace ByteMachine

/-- Number of addressable bytes. -/
abbrev memorySize : Nat := 256

/-- Contents of the memory, address 0 first. -/
abbrev Memory := Vector UInt8 memorySize

namespace Memory

/-- Memory with every byte zero. -/
def zero : Memory :=
  Vector.replicate memorySize 0

/-- Byte at an address. -/
def read (memory : Memory) (address : Nat) : Except Fault UInt8 :=
  if h : address < memorySize then .ok memory[address]
  else .error (.outOfRange .memory address)

/-- Memory with one byte replaced. -/
def write (memory : Memory) (address : Nat) (value : UInt8) : Except Fault Memory :=
  if h : address < memorySize then .ok (memory.set address value)
  else .error (.outOfRange .memory address)

/-- Byte at an address, zero beyond the end. -/
def peek (memory : Memory) (address : Nat) : UInt8 :=
  memory[address]?.getD 0

/-- Inside the memory a read gives what a look gives. -/
theorem read_of_lt (memory : Memory) {address : Nat} (h : address < memorySize) :
    memory.read address = .ok (memory.peek address) := by
  simp [read, peek, h]

/-- Outside the memory a read names the address. -/
theorem read_of_le (memory : Memory) {address : Nat} (h : memorySize ≤ address) :
    memory.read address = .error (.outOfRange .memory address) := by
  simp [read, Nat.not_lt.mpr h]

/-- Outside the memory there is nothing to write. -/
theorem write_of_le (memory : Memory) {address : Nat} (value : UInt8)
    (h : memorySize ≤ address) :
    memory.write address value = .error (.outOfRange .memory address) := by
  simp [write, Nat.not_lt.mpr h]

end Memory

end ByteMachine
