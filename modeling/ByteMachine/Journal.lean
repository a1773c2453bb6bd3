import ByteMachine.Text.Numeral

/-!
# Journal

Loading and running report what they do as events. An event has a level and a message; a filter
decides which levels are shown. How a shown event is written is left to whoever keeps the journal.
Events never influence what the machine does.
-/

namespace ByteMachine

/-- How much an event matters, most severe first. -/
inductive Level where
  | error
  | warn
  | info
  | debug
  | trace
  deriving DecidableEq, Repr

namespace Level

/-- Place in the order of severity, from the most severe. -/
def rank : Level → Nat
  | .error => 1
  | .warn => 2
  | .info => 3
  | .debug => 4
  | .trace => 5

end Level

/-- Something worth reporting: a program that was read from a file or put into memory, the trace
line before an instruction, an instruction about to be executed, and why a machine stopped. -/
inductive Event where
  | fileParsed (path : String) (size : Nat)
  | programLoaded (size : Nat)
  | traced (line : String)
  | dispatched (counter : Nat) (opcode a b : UInt8)
  | halted (counter steps : Nat)
  | revisited (counter : Nat)
  deriving DecidableEq, Repr

namespace Event

/-- Level of an event. -/
def level : Event → Level
  | .fileParsed .. => .debug
  | .programLoaded .. => .debug
  | .traced .. => .info
  | .dispatched .. => .trace
  | .halted .. => .debug
  | .revisited .. => .warn

/-- A named value behind a message. -/
def field (name value : String) : String :=
  " " ++ name ++ "=" ++ value

open Text in
/-- Message of an event, with its named values. -/
def message : Event → String
  | .fileParsed path size =>
    "parsed program file" ++ field "path" path ++ field "bytes" (decimal size)
  | .programLoaded size => "program loaded" ++ field "bytes" (decimal size)
  | .traced line => line
  | .dispatched counter opcode a b =>
    "dispatch" ++ field "pc" (decimal counter) ++ field "opcode" (decimal opcode.toNat) ++
      field "operand_a" (decimal a.toNat) ++ field "operand_b" (decimal b.toNat)
  | .halted counter steps =>
    "halted" ++ field "pc" (decimal counter) ++ field "steps" (decimal steps)
  | .revisited counter =>
    "revisited a jump origin, stopping" ++ field "pc" (decimal counter)

/-- Whether an event ends a run that was not cut short by a fault. -/
def isClosing : Event → Bool
  | .halted .. => true
  | .revisited .. => true
  | _ => false

end Event

/-- Which levels of the journal are shown: none, or the given one and all more severe ones. -/
inductive Filter where
  | off
  | upTo (level : Level)
  deriving DecidableEq, Repr

namespace Filter

/-- Whether a level is shown. -/
def shows : Filter → Level → Bool
  | .off, _ => false
  | .upTo most, level => level.rank ≤ most.rank

/-- The journal of some events. Those that are shown are written in order; `entry` says what is
written for the event that comes to stand in a place. -/
def journal (filter : Filter) (entry : Nat → Event → String) (events : List Event) : String :=
  String.join ((events.filter fun event => filter.shows event.level).mapIdx entry)

end Filter

end ByteMachine
