import ByteMachine.Proofs.Execution.Alike
import ByteMachine.Proofs.Execution.Control
import ByteMachine.Proofs.Execution.InstructionSet

/-!
# What the sink has to do with a step

A step uses the sink for one thing only, the line that it is about to print. `withSink` puts one
sink in the place of another. A machine that is about to print nothing steps alike whatever its sink
is, and leaves it alone. One that is about to print a value steps alike with all sinks that have
room for the line, and fails alike with all others; the line is then cut, and nothing else is done.
-/

namespace ByteMachine

namespace Sink

/-- Whether a line fits depends on the bound and on how much has been printed. -/
theorem fits_eq_false_iff {sink : Sink} {line : List Char} :
    sink.fits line = false ↔
      ∃ capacity, sink.capacity = some capacity ∧ capacity < sink.contents.size + line.length := by
  unfold fits
  cases sink.capacity with
  | none => simp
  | some capacity => simp

/-- A line fits below the bound. -/
theorem fits_of_le {sink : Sink} {line : List Char} {capacity : Nat}
    (hbounded : sink.capacity = some capacity)
    (hle : sink.contents.size + line.length ≤ capacity) : sink.fits line = true := by
  simp [fits, hbounded, hle]

end Sink

/-- Only an instruction that prints a register that exists looks at the sink. -/
theorem Opcode.execute_of_silent {op : Opcode} {registers : Registers} {a : UInt8}
    (h : op = .prn → ∀ value, registers.read a ≠ .ok value) (first second : Sink) (b : UInt8) :
    op.execute registers second a b = { op.execute registers first a b with sink := second } := by
  by_cases hop : op = .prn
  · subst hop
    unfold execute print
    cases hread : registers.read a with
    | error fault => rfl
    | ok value => exact absurd hread (h rfl value)
  · exact execute_withSink hop registers first second a b

namespace Machine

/-- The machine with another sink to print to. -/
def withSink (sink : Sink) (machine : Machine) : Machine :=
  { machine with sink }

/-- A machine is about to print a value: it has come to an instruction that prints, and its register
holds the value. -/
def Prints (machine : Machine) (value : UInt8) : Prop :=
  ∃ a b, machine.Dispatches .prn a b ∧ machine.registers.read a = .ok value

/-- A machine is not about to print anything. -/
def Silent (machine : Machine) : Prop :=
  ∀ value, ¬machine.Prints value

variable {machine : Machine}

/-- A sink takes no part in where a machine settles. -/
theorem sparesControl_withSink (sink : Sink) : SparesControl (withSink sink) where
  counter _ := rfl
  steps _ := rfl
  origins _ := rfl
  halted _ := rfl
  moved _ _ _ := rfl

/-- A machine comes to the same instruction whatever its sink is. -/
theorem Dispatches.withSink {op : Opcode} {a b : UInt8} (h : machine.Dispatches op a b)
    (sink : Sink) : (machine.withSink sink).Dispatches op a b :=
  ⟨h.running, h.belowLimit, h.decoded⟩

namespace Silent

/-- What a machine that prints nothing executes does not look at the sink. -/
theorem execute_eq (h : machine.Silent) {op : Opcode} {a b : UInt8}
    (hdispatches : machine.Dispatches op a b) (sink : Sink) :
    op.execute machine.registers sink a b =
      { op.execute machine.registers machine.sink a b with sink } := by
  apply Opcode.execute_of_silent
  intro hop value hread
  subst hop
  exact h value ⟨a, b, hdispatches, hread⟩

/-- A machine that prints nothing steps alike whatever its sink is. -/
theorem step_withSink (h : machine.Silent) (sink : Sink) :
    (machine.withSink sink).step = machine.step.mapMachine (withSink sink) := by
  cases machine.stage with
  | halted hhalted =>
    have hother : (machine.withSink sink).status = .halted := hhalted
    rw [step_halted hhalted, step_halted hother]
    rfl
  | limited hrunning hreached =>
    have hother : (machine.withSink sink).status = .running := hrunning
    rw [step_of_reachedLimit hrunning hreached, step_of_reachedLimit hother hreached]
    rfl
  | undecoded hrunning hbelow hdecode =>
    have hother : (machine.withSink sink).status = .running := hrunning
    rw [step_of_undecoded hrunning hbelow hdecode, step_of_undecoded hother hbelow hdecode]
    rfl
  | refused hdispatches hrefused =>
    have hother := h.execute_eq hdispatches sink
    rw [hrefused] at hother
    rw [hdispatches.step_of_refused hrefused, (hdispatches.withSink sink).step_of_refused hother]
    rfl
  | @executes op a b registers request printed hexecutes =>
    have hother := h.execute_eq hexecutes.toDispatches sink
    rw [hexecutes.executed] at hother
    have hsecond : (machine.withSink sink).Executes op a b registers request sink :=
      ⟨hexecutes.toDispatches.withSink sink, hother⟩
    have hsettle :
        ((machine.withResults registers printed).withSink sink).settle op.fields request = _ :=
      (sparesControl_withSink sink).settle (Or.inr Iff.rfl)
    rw [hexecutes.step_eq, hsecond.step_eq]
    exact congrArg (Turn.reporting _) hsettle

/-- A machine that prints nothing leaves its sink alone. -/
theorem step_sink (h : machine.Silent) : machine.step.machine.sink = machine.sink := by
  have hsame := h.step_withSink machine.sink
  exact congrArg (fun turn => turn.machine.sink) hsame

/-- A machine that prints nothing does not fail for its sink. -/
theorem step_ne_output (h : machine.Silent) (refusal : Refusal) :
    machine.step.answer ≠ .error (.output refusal) := by
  intro hanswer
  cases fails_of_step hanswer with
  | undecoded hrunning hbelow hdecode =>
    rcases decode_fault hdecode with ⟨-, hfault⟩ | ⟨-, hfault⟩
    · cases hfault
    · cases hfault
  | @refused op a b _ sink hdispatches hrefused =>
    obtain ⟨⟨number, hfault⟩ | ⟨rfl, -⟩, -⟩ := Opcode.of_execute_eq_error hrefused
    · cases hfault
    · cases hread : machine.registers.read a with
      | ok value => exact h value ⟨a, b, hdispatches, hread⟩
      | error cause =>
        obtain ⟨number, rfl⟩ := Registers.exists_of_missing? (Registers.read_eq_error_iff.mp hread)
        simp only [Opcode.execute, Opcode.print, hread] at hrefused
        cases hrefused

end Silent

namespace Prints

variable {value : UInt8}

/-- A machine is about to print the same whatever its sink is. -/
theorem withSink (h : machine.Prints value) (sink : Sink) :
    (machine.withSink sink).Prints value := by
  obtain ⟨a, b, hdispatches, hread⟩ := h
  exact ⟨a, b, hdispatches.withSink sink, hread⟩

/-- With every sink that has room for the line the step succeeds, and does the same. -/
theorem step_of_fits (h : machine.Prints value) :
    ∃ (turn : Turn Status) (status : Status), turn.answer = .ok status ∧
      ∀ sink, sink.fits (Sink.line value) = true →
        (machine.withSink sink).step =
          turn.mapMachine (Machine.withSink (sink.write (Sink.line value))) := by
  obtain ⟨a, b, hdispatches, hread⟩ := h
  have hexecutes (sink : Sink) (hfits : sink.fits (Sink.line value) = true) :
      (machine.withSink sink).Executes .prn a b machine.registers .advance
        (sink.write (Sink.line value)) :=
    ⟨hdispatches.withSink sink,
      Opcode.print_eq_ok_iff.mpr ⟨value, hread, hfits, rfl, rfl, rfl⟩⟩
  have hroomy : ({} : Sink).fits (Sink.line value) = true := rfl
  obtain ⟨status, hstatus⟩ := (hexecutes {} hroomy).step_ok
  refine ⟨(machine.withSink {}).step, status, hstatus, fun sink hfits => ?_⟩
  have hsettle : ((machine.withResults machine.registers
      (({} : Sink).write (Sink.line value))).withSink (sink.write (Sink.line value))).settle
        Opcode.prn.fields .advance = _ :=
    (sparesControl_withSink _).settle (Or.inr Iff.rfl)
  rw [(hexecutes sink hfits).step_eq, (hexecutes {} hroomy).step_eq]
  exact congrArg (Turn.reporting _) hsettle

/-- With every sink that has no room for the line the step fails, and does nothing but write what
still fits of the line. -/
theorem step_of_not_fits (h : machine.Prints value) :
    ∃ events, ∀ sink, sink.fits (Sink.line value) = false →
      (machine.withSink sink).step =
        ⟨.error (.output sink.refusal), machine.withSink (sink.write (Sink.line value)),
          events⟩ := by
  obtain ⟨a, b, hdispatches, hread⟩ := h
  refine ⟨machine.traceEvents ++ [.dispatched machine.counter Opcode.prn.byte a b],
    fun sink hfits => ?_⟩
  have hrefused : Opcode.prn.execute machine.registers sink a b =
      ⟨.error (.output sink.refusal), machine.registers, sink.write (Sink.line value)⟩ := by
    simp [Opcode.execute, Opcode.print, hread, hfits]
  exact (hdispatches.withSink sink).step_of_refused hrefused

/-- Whether the step succeeds or fails, what fits of the line is written. -/
theorem step_sink (h : machine.Prints value) :
    machine.step.machine.sink = machine.sink.write (Sink.line value) := by
  cases hfits : machine.sink.fits (Sink.line value) with
  | true =>
    obtain ⟨turn, status, -, hsame⟩ := h.step_of_fits
    have hstep : machine.step = _ := hsame machine.sink hfits
    rw [hstep]
    rfl
  | false =>
    obtain ⟨events, hsame⟩ := h.step_of_not_fits
    have hstep : machine.step = _ := hsame machine.sink hfits
    rw [hstep]
    rfl

/-- The instruction at the counter is the one that prints, and its register holds the value. -/
theorem spelled (h : machine.Prints value) :
    ∃ a, machine.memory[machine.counter]? = some Opcode.prn.byte ∧
      machine.memory[machine.counter + 1]? = some a ∧
        machine.registers.cells[a.toNat]? = some value := by
  obtain ⟨a, b, hdispatches, hread⟩ := h
  obtain ⟨hopcode, ha, -⟩ := fetch_eq_ok_iff.mp (decode_eq_ok_iff.mp hdispatches.decoded)
  exact ⟨a, hopcode, ha, Registers.read_eq_ok_iff.mp hread⟩

end Prints

/-- A machine is about to print a value, or it is not about to print anything. -/
theorem silent_or_prints (machine : Machine) : machine.Silent ∨ ∃ value, machine.Prints value := by
  by_cases h : ∃ value, machine.Prints value
  · exact Or.inr h
  · exact Or.inl fun value hprints => h ⟨value, hprints⟩

end Machine

end ByteMachine
