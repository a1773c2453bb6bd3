import ByteMachine.Machine.Step

/-!
# Runs

A run repeats steps until one of them halts or fails. A machine without a guard and without a
limit may repeat them for ever, so a run is defined by the number of steps it may take, and the
number is chosen so large that whatever has not ended by then never ends.

A walk is a run of at most a given number of steps that keeps the trace line before each.
-/

namespace ByteMachine.Machine

/-- Take steps until one halts or fails, at most `calls` of them; `none` when all of them went
on. The events in `reported` come before those of the steps. -/
def runFor (calls : Nat) (reported : Array Event) (machine : Machine) : Option (Turn Unit) :=
  match calls with
  | 0 => none
  | calls + 1 =>
    let turn := machine.step
    let reported := reported ++ turn.events
    match turn.answer with
    | .error fault => some ⟨.error fault, turn.machine, reported.toList⟩
    | .ok .halted => some ⟨.ok (), turn.machine, reported.toList⟩
    | .ok .running => runFor calls reported turn.machine

/-- Steps within which a guarded machine ends. Between two jumps the program counter moves up by
at least two, and no more jumps are taken than there are addresses. -/
def guardedHorizon : Nat :=
  memorySize * (memorySize / 2 + 1)

/-- Number of ways to fill program counter, flag and registers. -/
def configurations : Nat :=
  (memorySize + 1) * 4 * Nat.pow 256 registerCount

/-- Steps within which a machine ends if it ends at all. A step limit ends it after the steps that
are left and one that fails. Otherwise, without the guard, a machine that comes back to a
configuration repeats what it did, and this can end only when the sink has no room left. -/
def horizon (machine : Machine) : Nat :=
  match machine.config.stepLimit with
  | some limit => limit - machine.steps + 1
  | none =>
    if machine.config.revisitGuard then guardedHorizon
    else
      configurations * (machine.sink.capacity.elim 0 (· - machine.sink.contents.size) + 1) + 1

/-- Run a machine to its end; `none` when it never ends. -/
def run (machine : Machine) : Option (Turn Unit) :=
  runFor machine.horizon #[] machine

/-- Running a halted machine does nothing. -/
theorem run_halted {machine : Machine} (h : machine.status = .halted) :
    machine.run = some ⟨.ok (), machine, []⟩ := by
  have hpos : ∃ calls, machine.horizon = calls + 1 := by
    unfold horizon
    split
    · exact ⟨_, rfl⟩
    · split
      · exact ⟨memorySize * (memorySize / 2 + 1) - 1, rfl⟩
      · exact ⟨_, rfl⟩
  obtain ⟨calls, hcalls⟩ := hpos
  simp [run, hcalls, runFor, step_halted h]

/-- Earlier events come before those of the steps and change nothing else. -/
theorem runFor_reported (calls : Nat) (reported : Array Event) (machine : Machine) :
    runFor calls reported machine =
      (runFor calls #[] machine).map (Turn.reporting reported.toList) := by
  induction calls generalizing reported machine with
  | zero => rfl
  | succ calls ih =>
    simp only [runFor]
    rcases machine.step.answer with fault | status
    · simp [Turn.reporting]
    · cases status with
      | halted => simp [Turn.reporting]
      | running =>
        simp only
        rw [ih (reported ++ machine.step.events), ih (#[] ++ machine.step.events)]
        cases runFor calls #[] machine.step.machine <;> simp [Turn.reporting]

/-- A walk: the trace line before each step, the answer of the last step, if there was one, the
machine afterwards and the events of all steps. -/
structure Walk where
  lines : List String
  last : Option (Except Fault Status)
  machine : Machine
  events : List Event

/-- Take at most `calls` steps, ending early when one halts or fails. -/
def walk (calls : Nat) (machine : Machine) : Walk :=
  match calls with
  | 0 => ⟨[], none, machine, []⟩
  | calls + 1 =>
    let turn := machine.step
    match turn.answer with
    | .ok .running =>
      let rest := turn.machine.walk calls
      { rest with
        lines := machine.traceLine :: rest.lines
        last := rest.last.or (some turn.answer)
        events := turn.events ++ rest.events }
    | _ => ⟨[machine.traceLine], some turn.answer, turn.machine, turn.events⟩
termination_by structural calls

end ByteMachine.Machine
