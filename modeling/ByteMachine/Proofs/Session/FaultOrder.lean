import ByteMachine.Proofs.Execution.Effects
import ByteMachine.Proofs.Output.Printing
import ByteMachine.Proofs.Session.Invariant

/-!
# Which fault a step ends in

Five things can be wrong with the next step: the limit has been reached, the three bytes are not all
in memory, the first of them is no instruction, a register that the instruction looks up does not
exist, or the sink has no room for the line that it prints. Each is a check of its own, which looks
at the machine and at none of the other checks. A running machine fails exactly with the fault of
the first check that finds one. A register is looked up only where its value is needed, so a jump
that is not taken may name one that does not exist.
-/

namespace ByteMachine

namespace Instruction

/-- The eight bytes that are instructions. -/
def bytes : List UInt8 :=
  [0x01, 0x82, 0x47, 0xA2, 0xA7, 0x54, 0x55, 0x56]

/-- The numbers of the registers that an instruction looks up, in this order. A conditional jump
looks its register up only if it is taken. -/
def consulted (flags : Flags) : Instruction → List UInt8
  | .hlt => []
  | .ldi a _ => [a]
  | .prn a => [a]
  | .mul a b => [a, b]
  | .cmp a b => [a, b]
  | .jmp a => [a]
  | .jeq a => if flags = .equal then [a] else []
  | .jne a => if flags = .equal then [] else [a]

end Instruction

/-- A line is refused exactly when it does not fit. -/
theorem Sink.append?_eq_none_iff {sink : Sink} {value : UInt8} :
    sink.append? ((toString value.toNat).toList ++ ['\n']) = none ↔
      sink.fits (line value) = false := by
  simp only [Option.eq_none_iff_forall_ne_some, ne_eq, append?_eq_some_iff, not_and]
  cases sink.fits (line value) with
  | true => simp
  | false => simp

namespace Opcode

variable {registers : Registers} {a : UInt8} {fault : Fault}

/-- A change of the registers fails as an instruction for what it fails for by itself. -/
theorem changing_outcome_eq_error_iff {change : Registers.Change Unit} {numbers : List UInt8}
    {sink : Sink} (hchange : change.FailsFor numbers) :
    (changing change registers sink).outcome = .error fault ↔
      Registers.missing? numbers = some fault := by
  have hmissing : Registers.missing? numbers = some fault ↔
      ∃ after, change.run registers = .error fault after := by
    simp [hchange registers _ fault]
  rw [hmissing]
  unfold changing
  cases change.run registers <;> simp

/-- Printing fails for a register that does not exist, or else for a line that does not fit. -/
theorem print_eq_error_iff {sink : Sink} :
    (print registers sink a).outcome = .error fault ↔
      (Registers.missing? [a]).or (registers.cells[a.toNat]?.bind fun value =>
        if sink.append? ((toString value.toNat).toList ++ ['\n']) = none then
          some (.output sink.refusal)
        else none) = some fault := by
  rcases Nat.lt_or_ge a.toNat registerCount with hlt | hle
  · have hread := Registers.read_of_lt registers hlt
    rw [Registers.missing?_cons_of_lt hlt, Registers.read_eq_ok_iff.mp hread, Option.bind_some]
    simp only [print, hread, Sink.append?_eq_none_iff]
    cases sink.fits (Sink.line registers.cells[a.toNat]) with
    | true => simp [Registers.missing?]
    | false => simp [Registers.missing?]
  · rw [Registers.missing?_cons_of_le hle]
    simp [print, Registers.read_of_le registers hle]

end Opcode

namespace Machine

/-- The limit that is set has been reached. -/
def limitFault? (machine : Machine) : Option Fault :=
  machine.config.stepLimit.bind fun limit =>
    if limit ≤ machine.steps then some (.stepLimitExceeded limit) else none

/-- The three bytes at the counter are not all in memory. -/
def memoryFault? (machine : Machine) : Option Fault :=
  if 254 ≤ machine.counter then some (.outOfRange .memory 256) else none

/-- The byte at the counter is no instruction, whatever stands behind it. -/
def opcodeFault? (machine : Machine) : Option Fault :=
  if machine.memory.peek machine.counter ∈ Instruction.bytes then none
  else some (.unknownOpcode (machine.memory.peek machine.counter))

/-- A register that the instruction at the counter looks up does not exist. -/
def registerFault? (machine : Machine) : Option Fault :=
  machine.instruction?.bind fun instruction =>
    Registers.missing? (instruction.consulted machine.registers.flags)

/-- The line that the instruction at the counter prints does not fit into the sink. -/
def outputFault? (machine : Machine) : Option Fault :=
  match machine.instruction? with
  | some (.prn a) => (machine.register? a).bind fun value =>
    if machine.sink.append? ((toString value.toNat).toList ++ ['\n']) = none then
      some (.output machine.sink.refusal)
    else none
  | _ => none

/-- The five checks of a step, in the order in which they count. -/
def checks (machine : Machine) : List (Option Fault) :=
  [machine.limitFault?, machine.memoryFault?, machine.opcodeFault?, machine.registerFault?,
    machine.outputFault?]

/-- The fault of the first check that finds one. -/
def firstFault? (machine : Machine) : Option Fault :=
  machine.checks.findSome? id

variable {machine : Machine} {op : Opcode} {a b : UInt8} {fault : Fault}

/-- The first check says whether the limit has been reached. -/
theorem limitFault?_eq (machine : Machine) :
    machine.limitFault? = machine.reachedLimit?.map .stepLimitExceeded := by
  unfold limitFault? reachedLimit?
  cases machine.config.stepLimit with
  | none => rfl
  | some limit =>
    by_cases hle : limit ≤ machine.steps
    · simp [hle]
    · simp [hle, Nat.not_le.mp hle]

/-- The second check finds nothing where three bytes can be fetched. -/
theorem memoryFault?_of_within (h : machine.counter + 2 < memorySize) :
    machine.memoryFault? = none := by
  have hlt : machine.counter + 2 < 256 := h
  exact if_neg (by omega)

/-- The third check finds nothing at the byte of an instruction. -/
theorem opcodeFault?_of_byte (h : op.byte = machine.memory.peek machine.counter) :
    machine.opcodeFault? = none := by
  have hmem : op.byte ∈ Opcode.all.map Opcode.byte := List.mem_map_of_mem op.mem_all
  rw [h] at hmem
  exact if_pos hmem

/-- The third check reports every other byte. -/
theorem opcodeFault?_of_ne (h : ∀ op : Opcode, op.byte ≠ machine.memory.peek machine.counter) :
    machine.opcodeFault? = some (.unknownOpcode (machine.memory.peek machine.counter)) := by
  refine if_neg fun hmem => ?_
  obtain ⟨op, -, hop⟩ := List.mem_map.mp (show _ ∈ Opcode.all.map Opcode.byte from hmem)
  exact h op hop

/-- Where a machine has come to an instruction only the last two checks can find a fault. -/
theorem Dispatches.firstFault?_eq (h : machine.Dispatches op a b) :
    machine.firstFault? = machine.registerFault?.or machine.outputFault? := by
  obtain ⟨hopcode, -, hb⟩ := fetch_eq_ok_iff.mp (decode_eq_ok_iff.mp h.decoded)
  have hlimit : machine.limitFault? = none := by rw [limitFault?_eq, h.belowLimit, Option.map_none]
  have hmemory := memoryFault?_of_within (Vector.getElem?_eq_some_iff.mp hb).1
  have hbyte : op.byte = machine.memory.peek machine.counter := by
    rw [Memory.peek, hopcode, Option.getD_some]
  simp only [firstFault?, checks, hlimit, hmemory, opcodeFault?_of_byte hbyte, List.findSome?_cons,
    id, List.findSome?_nil]
  cases machine.registerFault? <;> cases machine.outputFault? <;> rfl

/-- An instruction fails exactly with the first fault that the checks find: a register that it looks
up and that does not exist, or else a line that does not fit. -/
theorem Dispatches.execute_eq_error_iff (h : machine.Dispatches op a b) :
    (op.execute machine.registers machine.sink a b).outcome = .error fault ↔
      machine.firstFault? = some fault := by
  rw [h.firstFault?_eq, registerFault?, outputFault?, h.instruction?_eq, Option.bind_some]
  cases op with
  | hlt => simp [Opcode.execute, Opcode.instruction, Instruction.consulted, Registers.missing?]
  | ldi =>
    rw [Opcode.instruction, Option.or_none]
    exact Opcode.changing_outcome_eq_error_iff (Registers.write_failsFor a b)
  | prn => exact Opcode.print_eq_error_iff
  | mul =>
    rw [Opcode.instruction, Option.or_none]
    exact Opcode.changing_outcome_eq_error_iff (Registers.compute_failsFor .mul a b)
  | cmp =>
    rw [Opcode.instruction, Option.or_none]
    exact Opcode.changing_outcome_eq_error_iff (Registers.compare_failsFor a b)
  | jmp =>
    rw [Opcode.instruction, Option.or_none]
    exact Opcode.jumpIf_eq_error_iff true
  | jeq =>
    rw [Opcode.instruction, Option.or_none]
    refine (Opcode.jumpIf_eq_error_iff _).trans ?_
    simp [Instruction.consulted, Flags.isEqual]
  | jne =>
    rw [Opcode.instruction, Option.or_none]
    refine (Opcode.jumpIf_eq_error_iff _).trans ?_
    simp [Instruction.consulted, Flags.isEqual]

/-- Where a running machine below its limit finds no instruction, the first fault of the checks is
the one for which it finds none. -/
theorem firstFault?_of_undecoded (hwithin : machine.counter ≤ memorySize)
    (hbelow : machine.reachedLimit? = none) (hdecode : machine.decode = .error fault) :
    machine.firstFault? = some fault := by
  have hlimit : machine.limitFault? = none := by rw [limitFault?_eq, hbelow, Option.map_none]
  rcases decode_fault hdecode with ⟨hmissed, rfl⟩ | ⟨hinside, rfl⟩
  · have hlast : 256 ≤ machine.counter + 2 := hmissed
    have hmemory : machine.memoryFault? = some (.outOfRange .memory 256) := if_pos (by omega)
    rw [Nat.max_eq_right hwithin]
    simp [firstFault?, checks, hlimit, hmemory]
  · have hopcode : ∀ op : Opcode, op.byte ≠ machine.memory.peek machine.counter := by
      intro op hop
      rw [decode_of_within hinside, Opcode.ofByte_eq_ok_iff.mpr hop] at hdecode
      cases hdecode
    simp [firstFault?, checks, hlimit, memoryFault?_of_within hinside, opcodeFault?_of_ne hopcode]

/-- A running machine fails exactly with the fault of the first check that finds one. -/
theorem step_eq_error_iff (running : machine.status = .running)
    (hwithin : machine.counter ≤ memorySize) :
    machine.step.answer = .error fault ↔ machine.firstFault? = some fault := by
  cases machine.stage with
  | halted hhalted =>
    rw [running] at hhalted
    cases hhalted
  | @limited limit hrunning hreached =>
    have hlimit : machine.limitFault? = some (.stepLimitExceeded limit) := by
      rw [limitFault?_eq, hreached, Option.map_some]
    rw [step_of_reachedLimit hrunning hreached]
    simp [firstFault?, checks, hlimit]
  | undecoded hrunning hbelow hdecode =>
    rw [step_of_undecoded hrunning hbelow hdecode,
      firstFault?_of_undecoded hwithin hbelow hdecode]
    simp
  | refused hdispatches hrefused =>
    rw [← hdispatches.execute_eq_error_iff, hdispatches.step_of_refused hrefused, hrefused]
    simp only [Except.error.injEq]
  | executes hexecutes =>
    obtain ⟨status, hanswer⟩ := hexecutes.step_ok
    rw [← hexecutes.toDispatches.execute_eq_error_iff, hexecutes.executed, hanswer]
    simp

/-- The fourth check finds a fault exactly if the instruction looks up a register that does not
exist. -/
theorem isSome_registerFault?_iff :
    machine.registerFault?.isSome = true ↔ ∃ instruction, machine.instruction? = some instruction ∧
      ∃ number ∈ instruction.consulted machine.registers.flags, 9 ≤ number.toNat := by
  unfold registerFault? Registers.missing?
  cases machine.instruction? with
  | none => simp
  | some instruction => simp

/-- The fifth check finds a fault exactly if the instruction prints a register that exists and whose
line does not fit. -/
theorem isSome_outputFault?_iff :
    machine.outputFault?.isSome = true ↔ ∃ a value, machine.instruction? = some (.prn a) ∧
      machine.register? a = some value ∧
        machine.sink.append? ((toString value.toNat).toList ++ ['\n']) = none := by
  unfold outputFault?
  cases machine.instruction? with
  | none => simp
  | some instruction =>
    cases instruction with
    | prn a =>
      simp only [Option.some.injEq, Instruction.prn.injEq, exists_and_left, exists_eq_left']
      cases machine.register? a with
      | none => simp
      | some value => simp
    | _ => simp

/-- One of the checks finds a fault exactly under one of these conditions. -/
theorem exists_firstFault?_iff :
    (∃ fault, machine.firstFault? = some fault) ↔
      (∃ limit, machine.config.stepLimit = some limit ∧ limit ≤ machine.steps) ∨
      254 ≤ machine.counter ∨
      machine.memory.peek machine.counter ∉ Instruction.bytes ∨
      (∃ instruction, machine.instruction? = some instruction ∧
        ∃ number ∈ instruction.consulted machine.registers.flags, 9 ≤ number.toNat) ∨
      ∃ a value, machine.instruction? = some (.prn a) ∧ machine.register? a = some value ∧
        machine.sink.append? ((toString value.toNat).toList ++ ['\n']) = none := by
  have hlimit : machine.limitFault?.isSome = true ↔
      ∃ limit, machine.config.stepLimit = some limit ∧ limit ≤ machine.steps := by
    unfold limitFault?
    cases machine.config.stepLimit <;> simp
  have hmemory : machine.memoryFault?.isSome = true ↔ 254 ≤ machine.counter := by
    simp [memoryFault?]
  have hopcode : machine.opcodeFault?.isSome = true ↔
      machine.memory.peek machine.counter ∉ Instruction.bytes := by
    simp [opcodeFault?]
  rw [← hlimit, ← hmemory, ← hopcode, ← isSome_registerFault?_iff, ← isSome_outputFault?_iff,
    ← Option.isSome_iff_exists, firstFault?, List.findSome?_isSome_iff]
  simp [checks]

/-- The counter of a reachable machine stays within memory or stops just behind it. -/
theorem Reachable.counter_le (h : Reachable machine) : machine.counter ≤ memorySize := by
  obtain ⟨config, sink, session, hsession⟩ := h
  have hinvariant : machine.Invariant config :=
    after_induction (fun _ _ _ _ hchange hbefore => hbefore.change hchange) hsession
      (Invariant.new config sink)
  exact hinvariant.counter_le

/-- A step of a running machine fails exactly with the first fault that its checks find; a step of a
halted machine never fails. -/
theorem step_fails_with_first_fault (machine : Machine) (hreached : Reachable machine)
    (sink : Sink) :
    let next := machine.withSink sink
    (next.status = .running →
      (∀ fault, next.step.answer = .error fault ↔ next.checks.findSome? id = some fault) ∧
      ((∃ fault, next.step.answer = .error fault) ↔
        (∃ limit, next.config.stepLimit = some limit ∧ limit ≤ next.steps) ∨
        254 ≤ next.counter ∨
        next.memory.peek next.counter ∉ Instruction.bytes ∨
        (∃ instruction, next.instruction? = some instruction ∧
          ∃ number ∈ instruction.consulted next.registers.flags, 9 ≤ number.toNat) ∨
        ∃ a value, next.instruction? = some (.prn a) ∧ next.register? a = some value ∧
          next.sink.append? ((toString value.toNat).toList ++ ['\n']) = none)) ∧
    (next.status = .halted → next.step.answer = .ok .halted) := by
  intro next
  refine ⟨fun hrunning => ?_, fun hhalted => ?_⟩
  · have hiff (fault : Fault) :
        next.step.answer = .error fault ↔ next.firstFault? = some fault :=
      step_eq_error_iff hrunning hreached.counter_le
    refine ⟨hiff, ?_⟩
    rw [← exists_firstFault?_iff]
    exact exists_congr hiff
  · rw [step_halted hhalted]

/-- A jump that is not taken passes although it names register 200. The comparison behind it names
two registers that do not exist, of which the first one is reported; but a limit of one instruction
is reported before both. -/
theorem step_fails_with_first_fault_twoMissing :
    let image : Image := ⟨[0x55, 200, 0xA7, 200, 9], by decide⟩
    (loaded {} {} image).step.answer = .ok .running ∧
      ((loaded {} {} image).stepped 1).step.answer = .error (.outOfRange .register 200) ∧
      ((loaded { stepLimit := some 1 } {} image).stepped 1).step.answer =
        .error (.stepLimitExceeded 1) := by
  intro image
  have hreached (config : Config) : Reachable ((loaded config {} image).stepped 1) :=
    ⟨config, {}, [.load image, .step], rfl⟩
  obtain ⟨hunlimited, -⟩ := step_fails_with_first_fault _ (hreached {}) {}
  obtain ⟨hlimited, -⟩ := step_fails_with_first_fault _ (hreached { stepLimit := some 1 }) {}
  refine ⟨by decide +kernel, ?_, ?_⟩
  · exact ((hunlimited (by decide +kernel)).1 _).mpr (by decide +kernel)
  · exact ((hlimited (by decide +kernel)).1 _).mpr (by decide +kernel)

end Machine

end ByteMachine
