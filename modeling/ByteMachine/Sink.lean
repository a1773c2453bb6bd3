import ByteMachine.Text.Numeral

/-!
# Output sink

Printed lines go to a sink that may hold only so many characters. A line that does not fit is
cut: the characters that still fit stay in the sink and the write is refused. What the sink
already holds is never lost, reordered or written twice.

Only ASCII is ever printed, so a character is a byte.
-/

namespace ByteMachine

/-- How a full sink turns a write down: it says so, or it accepts no byte and says nothing. -/
inductive Refusal where
  | full
  | nothingAccepted
  deriving DecidableEq, Repr

namespace Refusal

/-- Wording of a refused write. -/
def message : Refusal → String
  | .full => "sink is full"
  | .nothingAccepted => "failed to write whole buffer"

end Refusal

/-- Printed text, with the most characters that are kept, if there is a bound, and the way in which
more of them are refused. -/
structure Sink where
  capacity : Option Nat := none
  refusal : Refusal := .full
  contents : Array Char := #[]
  deriving DecidableEq, Repr

namespace Sink

/-- Printed text as a string. -/
def text (sink : Sink) : String :=
  String.ofList sink.contents.toList

/-- Leading characters of `line` for which there is still room. -/
def fitting (sink : Sink) (line : List Char) : List Char :=
  match sink.capacity with
  | none => line
  | some capacity => line.take (capacity - sink.contents.size)

/-- Whether the whole of `line` fits. -/
def fits (sink : Sink) (line : List Char) : Bool :=
  match sink.capacity with
  | none => true
  | some capacity => sink.contents.size + line.length ≤ capacity

/-- The sink after a write of `line`, whole or cut. -/
def write (sink : Sink) (line : List Char) : Sink :=
  { sink with contents := sink.contents ++ sink.fitting line }

/-- The same sink with nothing in it. -/
def cleared (sink : Sink) : Sink :=
  { sink with contents := #[] }

/-- A value printed on a line of its own. -/
def line (value : UInt8) : List Char :=
  (Text.decimal value.toNat).toList ++ ['\n']

/-- A write adds the fitting characters behind the old contents. -/
@[simp] theorem write_contents (sink : Sink) (line : List Char) :
    (sink.write line).contents.toList = sink.contents.toList ++ sink.fitting line := by
  simp [write]

/-- A write makes the contents longer by what is taken from the line. -/
theorem write_size (sink : Sink) (line : List Char) :
    (sink.write line).contents.size = sink.contents.size + (sink.fitting line).length := by
  simp [← Array.length_toList]

/-- What is taken from a line is an initial part of it. -/
theorem fitting_isPrefix (sink : Sink) (line : List Char) : sink.fitting line <+: line := by
  unfold fitting
  split
  · exact List.prefix_refl line
  · exact List.take_prefix _ line

/-- A line is taken whole exactly when it fits, unless it is empty. -/
theorem fitting_eq_iff (sink : Sink) {line : List Char} (h : line ≠ []) :
    sink.fitting line = line ↔ sink.fits line := by
  have hpos : 0 < line.length := List.length_pos_iff.mpr h
  unfold fitting fits
  split
  · simp
  · rename_i capacity _
    rw [decide_eq_true_iff]
    constructor
    · intro heq
      have hlen := congrArg List.length heq
      rw [List.length_take] at hlen
      omega
    · intro hle
      exact List.take_of_length_le (by omega)

/-- A printed line has at least its line feed. -/
theorem line_ne_nil (value : UInt8) : line value ≠ [] := by
  simp [line]

/-- A printed line is the usual decimal numeral and a line feed. -/
theorem line_eq_toString (value : UInt8) :
    line value = (toString value.toNat).toList ++ ['\n'] := by
  rw [line, Text.decimal_toList]
  simp [toString, Nat.repr]

/-- A line that fits is written whole. -/
theorem write_of_fits {sink : Sink} {value : UInt8} (h : sink.fits (line value) = true) :
    sink.write (line value) = { sink with contents := sink.contents ++ line value } := by
  rw [write, (sink.fitting_eq_iff (line_ne_nil value)).mpr h]

end Sink

end ByteMachine
