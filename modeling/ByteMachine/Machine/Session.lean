import ByteMachine.Machine.Run

/-!
# Sessions

A host drives a machine by commands. A session is a list of them; the states that a session leads
to from a new machine are the reachable ones.
-/

namespace ByteMachine

/-- What a host can ask of a machine: to load a program, to take one step, all steps or at most some
number of them, to read or write a byte of memory, and to empty the sink. -/
inductive Command where
  | load (image : Image)
  | step
  | run
  | walk (calls : Nat)
  | readMemory (address : Nat)
  | writeMemory (address : Nat) (value : UInt8)
  | clearOutput

/-- What a machine answers to a command. A walk answers with its trace lines and the answer of its
last step. -/
inductive Answer where
  | done
  | status (status : Status)
  | byte (value : UInt8)
  | walked (lines : List String) (last : Option (Except Fault Status))

namespace Turn

/-- The same turn with another form of answer. -/
def map {α β : Type} (f : α → β) (turn : Turn α) : Turn β :=
  { turn with answer := turn.answer.map f }

end Turn

namespace Machine

/-- Carry out a command; `none` when it is a run that never ends. -/
def obey (machine : Machine) : Command → Option (Turn Answer)
  | .load image => some ((machine.load image).map fun _ => .done)
  | .step => some (machine.step.map .status)
  | .run => machine.run.map fun turn => turn.map fun _ => .done
  | .walk calls =>
    let walk := machine.walk calls
    some ⟨.ok (.walked walk.lines walk.last), walk.machine, walk.events⟩
  | .readMemory address => some ((machine.readMemory address).map .byte)
  | .writeMemory address value => some ((machine.writeMemory address value).map fun _ => .done)
  | .clearOutput => some ⟨.ok .done, machine.clearOutput, []⟩

/-- The machine after a session; `none` when a run in it never ends. -/
def after (machine : Machine) (session : List Command) : Option Machine :=
  session.foldlM (fun machine command => (machine.obey command).map Turn.machine) machine

/-- A session of one command. -/
theorem after_singleton (machine : Machine) (command : Command) :
    machine.after [command] = (machine.obey command).map Turn.machine := by
  cases h : machine.obey command <;> simp [after, h]

/-- Two sessions in a row are one session. -/
theorem after_append (machine : Machine) (earlier later : List Command) :
    machine.after (earlier ++ later) = (machine.after earlier).bind fun m => m.after later := by
  simp [after, List.foldlM_append]

/-- A session is its first command and then the others. -/
theorem after_cons (machine : Machine) (command : Command) (session : List Command) :
    machine.after (command :: session) =
      (machine.obey command).bind fun turn => turn.machine.after session := by
  rw [← List.singleton_append, after_append, after_singleton]
  cases machine.obey command <;> rfl

/-- A machine that some session leads to from a new one. -/
def Reachable (machine : Machine) : Prop :=
  ∃ config sink session, (new config sink).after session = some machine

end Machine

end ByteMachine
