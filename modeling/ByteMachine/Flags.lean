import ByteMachine.Text.Numeral

/-!
# The comparison flag

The flag register remembers the last comparison. Its byte has the layout `00000LGE`; at most one
of the three bits is set, and none is before the first comparison.
-/

namespace ByteMachine

/-- What the last comparison found; `none` before the first one. -/
inductive Flags where
  | none
  | equal
  | less
  | greater
  deriving DecidableEq, Repr

namespace Flags

/-- The flag register as a byte. -/
def bits : Flags → UInt8
  | .none => 0
  | .equal => 0b001
  | .greater => 0b010
  | .less => 0b100

/-- The flag register as eight binary digits. -/
def text (flags : Flags) : String :=
  Text.binary flags.bits.toNat

/-- Whether the last comparison found equal values. -/
def isEqual (flags : Flags) : Bool :=
  flags = .equal

/-- The flag for two values, by their unsigned order. -/
def ofValues (left right : UInt8) : Flags :=
  if left = right then .equal else if left < right then .less else .greater

/-- Values compare as equal exactly when they are the same. -/
theorem ofValues_eq_equal_iff {left right : UInt8} :
    ofValues left right = .equal ↔ left = right := by
  unfold ofValues
  split
  · simp [*]
  · split <;> simp [*]

/-- A comparison always sets the flag. -/
theorem ofValues_ne_none (left right : UInt8) : ofValues left right ≠ .none := by
  unfold ofValues
  split
  · simp
  · split <;> simp

end Flags

end ByteMachine
