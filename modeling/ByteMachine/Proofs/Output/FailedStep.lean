import ByteMachine.Proofs.Execution.Horizon
import ByteMachine.Proofs.Output.Printing

/-!
# A failed step spares the machine

A step can fail at its limit, at each of its fetches, at its opcode, at the operands of its
instruction and at the sink. At all of them the machine is left as it was; only at the sink a part
of the line may have been printed, never the whole of it. So a run that fails leaves the machine
behind its last instruction, and a line that was refused is printed from its beginning once there is
room.
-/

namespace ByteMachine.Machine

/-- What a fault leaves of a machine: everything, and in the sink, if it refused the line of the
instruction at the counter, a part of that line behind what was there. -/
def SparedBy (fault : Fault) (before after : Machine) : Prop :=
  match fault with
  | .output refusal =>
    refusal = before.sink.refusal ∧
      ∃ (a value : UInt8) (part : List Char),
        before.memory[before.counter]? = some Opcode.prn.byte ∧
          before.memory[before.counter + 1]? = some a ∧
            before.registers.cells[a.toNat]? = some value ∧
              part <+: (toString value.toNat).toList ++ ['\n'] ∧
                part ≠ (toString value.toNat).toList ++ ['\n'] ∧
                  after = { before with sink.contents := before.sink.contents ++ part }
  | _ => after = before

variable {machine : Machine} {fault : Fault}

/-- A machine that fails and prints nothing is left as it was. -/
theorem Silent.step_of_fault (h : machine.Silent) (hfault : machine.step.answer = .error fault) :
    machine.step.machine = machine := by
  obtain ⟨sink, -, hmachine⟩ := Machine.step_of_fault hfault
  have hsink := h.step_sink
  rw [hmachine] at hsink ⊢
  obtain rfl : sink = machine.sink := hsink
  rfl

/-- A machine that fails although it is about to print fails for its sink, which takes a part of the
line. -/
theorem Prints.step_of_fault {value : UInt8} (h : machine.Prints value)
    (hfault : machine.step.answer = .error fault) :
    fault = .output machine.sink.refusal ∧ machine.sink.fits (Sink.line value) = false ∧
      machine.step.machine = machine.withSink (machine.sink.write (Sink.line value)) := by
  cases hfits : machine.sink.fits (Sink.line value) with
  | true =>
    obtain ⟨turn, status, hanswer, hsame⟩ := h.step_of_fits
    have hstep : machine.step = _ := hsame machine.sink hfits
    rw [hstep] at hfault
    change turn.answer = _ at hfault
    rw [hanswer] at hfault
    cases hfault
  | false =>
    obtain ⟨events, hsame⟩ := h.step_of_not_fits
    have hstep : machine.step = _ := hsame machine.sink hfits
    rw [hstep] at hfault ⊢
    cases hfault
    exact ⟨rfl, rfl, rfl⟩

/-- A machine whose sink has no bound is left as it was by a step that fails. -/
theorem step_of_fault_of_unbounded (hunbounded : machine.sink.capacity = none)
    (hfault : machine.step.answer = .error fault) : machine.step.machine = machine := by
  rcases machine.silent_or_prints with hsilent | ⟨value, hprints⟩
  · exact hsilent.step_of_fault hfault
  · obtain ⟨-, hfits, -⟩ := hprints.step_of_fault hfault
    obtain ⟨capacity, hcapacity, -⟩ := Sink.fits_eq_false_iff.mp hfits
    rw [hunbounded] at hcapacity
    cases hcapacity

/-- A step that fails spares the machine. -/
theorem sparedBy_of_fault (hfault : machine.step.answer = .error fault) :
    machine.SparedBy fault machine.step.machine := by
  rcases machine.silent_or_prints with hsilent | ⟨value, hprints⟩
  · have hmachine := hsilent.step_of_fault hfault
    cases fault with
    | output refusal => exact absurd hfault (hsilent.step_ne_output refusal)
    | _ => exact hmachine
  · obtain ⟨rfl, hfits, hmachine⟩ := hprints.step_of_fault hfault
    obtain ⟨a, hopcode, ha, hvalue⟩ := hprints.spelled
    refine ⟨rfl, a, value, machine.sink.fitting (Sink.line value), hopcode, ha, hvalue, ?_, ?_,
      hmachine⟩
    · rw [← Sink.line_eq_toString]
      exact machine.sink.fitting_isPrefix _
    · rw [← Sink.line_eq_toString]
      intro hwhole
      rw [machine.sink.fitting_eq_iff (Sink.line_ne_nil value), hfits] at hwhole
      cases hwhole

/-- A machine that failed for its sink prints the whole line once there is room for it, and steps as
it would have done if there had been room at once. -/
theorem Prints.step_again {value : UInt8} (h : machine.Prints value)
    (hfault : machine.step.answer = .error fault) {atOnce later : Sink}
    (hatOnce : atOnce.fits (Sink.line value) = true)
    (hlater : later.fits (Sink.line value) = true) :
    (∃ status, (machine.step.machine.withSink later).step.answer = .ok status) ∧
      (machine.step.machine.withSink later).step = (machine.withSink atOnce).step.mapMachine
        (Machine.withSink { later with contents := later.contents ++ Sink.line value }) := by
  obtain ⟨-, -, hmachine⟩ := h.step_of_fault hfault
  obtain ⟨turn, status, hanswer, hsame⟩ := h.step_of_fits
  have hagain : machine.step.machine.withSink later = machine.withSink later := by
    rw [hmachine]
    rfl
  rw [hagain, hsame later hlater, hsame atOnce hatOnce, Sink.write_of_fits hlater]
  exact ⟨⟨status, hanswer⟩, rfl⟩

/-- A failed step spares the machine, also at the end of a run. After the sink refused a line and
was given room for it, the next step does what it would have done without the failed one. -/
theorem failed_step_spares_machine (machine : Machine) :
    (∀ fault, machine.step.answer = .error fault →
      machine.SparedBy fault machine.step.machine) ∧
    (∀ turn fault, machine.run = some turn → turn.answer = .error fault →
      ∃ calls, machine.GoesOn calls ∧
        (machine.stepped calls).step.answer = .error fault ∧
        turn.machine = (machine.stepped calls).step.machine ∧
        (machine.stepped calls).SparedBy fault turn.machine) ∧
    ∀ refusal, machine.step.answer = .error (.output refusal) →
      ∃ a value line, machine.memory[machine.counter]? = some Opcode.prn.byte ∧
        machine.memory[machine.counter + 1]? = some a ∧
        machine.registers.cells[a.toNat]? = some value ∧
        line = (toString value.toNat).toList ++ ['\n'] ∧
        ∀ atOnce later : Sink, atOnce.fits line = true → later.fits line = true →
          (∃ status, (machine.step.machine.withSink later).step.answer = .ok status) ∧
          (machine.step.machine.withSink later).step = (machine.withSink atOnce).step.mapMachine
            (withSink { later with contents := later.contents ++ line }) := by
  refine ⟨fun fault hfault => sparedBy_of_fault hfault, fun turn fault hrun hanswer => ?_,
    fun refusal hrefused => ?_⟩
  · obtain ⟨calls, hends, rfl⟩ := run_eq_some_iff.mp hrun
    have hfault := ending_eq_error_iff.mp hanswer
    have hmachine : (machine.ending calls).machine = (machine.stepped calls).step.machine :=
      machine.stepped_succ calls
    refine ⟨calls, hends.goesOn, hfault, hmachine, ?_⟩
    rw [hmachine]
    exact sparedBy_of_fault hfault
  · rcases machine.silent_or_prints with hsilent | ⟨value, hprints⟩
    · exact absurd hrefused (hsilent.step_ne_output refusal)
    · obtain ⟨a, hopcode, ha, hvalue⟩ := hprints.spelled
      exact ⟨a, value, Sink.line value, hopcode, ha, hvalue, Sink.line_eq_toString value,
        fun atOnce later hatOnce hlater => hprints.step_again hrefused hatOnce hlater⟩

/-- A program that prints the largest byte twice. -/
def largestTwice : Image where
  program := [0x82, 0, 255, 0x47, 0, 0x47, 0, 0x01]
  fits := by decide

/-- With room for six characters the second line is cut after its second digit. Once the sink has
been given more room, the line is printed again from its first digit. -/
theorem failed_step_spares_machine_largestTwice :
    let start := loaded {} { capacity := some 6 } largestTwice
    let cut := start.stepped 2
    let again := (cut.step.machine.withSink { cut.step.machine.sink with capacity := none }).step
    cut.step.answer = .error (.output .full) ∧
      cut.SparedBy (.output .full) cut.step.machine ∧
      cut.step.machine.sink.text = "255\n25" ∧
      (∃ turn, start.run = some turn ∧ turn.answer = .error (.output .full) ∧
        turn.machine = cut.step.machine) ∧
      (∃ status, again.answer = .ok status) ∧ again.machine.sink.text = "255\n25255\n" := by
  intro start cut again
  have hfault : cut.step.answer = .error (.output .full) := by decide +kernel
  have hends : start.EndsAt 2 := ⟨by decide +kernel, by decide +kernel⟩
  have hrun := run_eq_some_iff.mpr ⟨2, hends, rfl⟩
  obtain ⟨hspares, -, hretries⟩ := failed_step_spares_machine cut
  obtain ⟨calls, hgoes, hstop, hmachine, -⟩ :=
    (failed_step_spares_machine start).2.1 _ _ hrun (ending_eq_error_iff.mpr hfault)
  obtain rfl : calls = 2 := EndsAt.unique ⟨hgoes, by simp [hstop]⟩ hends
  obtain ⟨a, value, line, -, ha, hvalue, rfl, hagain⟩ := hretries .full hfault
  exact ⟨hfault, hspares _ hfault, by decide +kernel,
    ⟨_, hrun, ending_eq_error_iff.mpr hfault, hmachine⟩, (hagain {} _ rfl rfl).1,
    by decide +kernel⟩

end ByteMachine.Machine
