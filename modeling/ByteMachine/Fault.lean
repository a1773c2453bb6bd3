import ByteMachine.Sink

/-!
# Faults

The conditions that end a program early. Each is recorded by its cause; the wording lives in
one function.
-/

namespace ByteMachine

/-- The two index spaces that an operand can miss. -/
inductive Space where
  | register
  | memory
  deriving DecidableEq, Repr

namespace Space

/-- How an index of this space is called. -/
def label : Space → String
  | .register => "register"
  | .memory => "memory address"

end Space

/-- Why the machine could not go on: an index beyond the end of its space, a byte at the program
counter that is no instruction, as many executed instructions as the limit allows, or a printed line
that the sink did not take whole. -/
inductive Fault where
  | outOfRange (space : Space) (index : Nat)
  | unknownOpcode (byte : UInt8)
  | stepLimitExceeded (limit : Nat)
  | output (refusal : Refusal)
  deriving DecidableEq, Repr

namespace Fault

open Text in
/-- Wording of a fault. -/
def message : Fault → String
  | .outOfRange space index => space.label ++ " " ++ decimal index ++ " out of range"
  | .unknownOpcode byte =>
    "unknown opcode 0b" ++ binary byte.toNat ++ " (0x" ++ lowerHex byte.toNat ++ ")"
  | .stepLimitExceeded limit =>
    "step limit of " ++ decimal limit ++ " instructions exceeded"
  | .output refusal => "failed to write program output: " ++ refusal.message

end Fault

end ByteMachine
