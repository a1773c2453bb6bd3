import ByteMachine.Proofs.Execution.Stepping

/-!
# The step implements the instruction set

The instruction set is stated once more, without opcodes, bit fields and requests: an instruction is
spelled by three bytes of memory and changes a machine as `result?` says, and `interpret?` adds what
is common to all instructions, the count and the guard. A step finds its handler in the dispatch
table instead, where the slots line up (`DispatchTable.new_slot`), and its way on in the bits of the
opcode. `step_implements_instruction_set` says that a step of a running machine succeeds exactly as
this interpreter does.

The operands of an instruction may name one register twice, or the reserved register. A jump that is
not taken does not look at its operand.
-/

namespace ByteMachine

/-- An instruction with its operands. -/
inductive Instruction where
  | hlt
  | ldi (a value : UInt8)
  | prn (a : UInt8)
  | mul (a b : UInt8)
  | cmp (a b : UInt8)
  | jmp (a : UInt8)
  | jeq (a : UInt8)
  | jne (a : UInt8)
  deriving DecidableEq, Repr

/-- The instruction that three bytes spell, if they spell one. -/
def Instruction.ofBytes? (opcode a b : UInt8) : Option Instruction :=
  match opcode.toNat with
  | 0x01 => some .hlt
  | 0x82 => some (.ldi a b)
  | 0x47 => some (.prn a)
  | 0xA2 => some (.mul a b)
  | 0xA7 => some (.cmp a b)
  | 0x54 => some (.jmp a)
  | 0x55 => some (.jeq a)
  | 0x56 => some (.jne a)
  | _ => none

/-- The sink with a line behind its contents, if the whole line fits. -/
def Sink.append? (sink : Sink) (line : List Char) : Option Sink :=
  if sink.capacity.all fun capacity => sink.contents.size + line.length ≤ capacity then
    some { sink with contents := sink.contents ++ line }
  else none

namespace Machine

/-- Contents of a register, if there is one with this number. -/
def register? (machine : Machine) (number : UInt8) : Option UInt8 :=
  machine.registers.cells[number.toNat]?

/-- The machine with another value in one register. -/
def assign (machine : Machine) (number value : UInt8) : Machine :=
  { machine with registers.cells := machine.registers.cells.setIfInBounds number.toNat value }

/-- The machine at the address that a register holds, with the jump recorded. -/
def jumpTo? (machine : Machine) (number : UInt8) : Option Machine := do
  let target ← machine.register? number
  return { machine with
    counter := target.toNat
    origins := machine.origins.insert machine.counter }

/-- What an instruction makes of a machine, count and guard apart. Nothing if an operand that is
needed names no register, or if the sink has no room for the line. -/
def result? (machine : Machine) : Instruction → Option Machine
  | .hlt => some { machine with status := .halted }
  | .ldi a value => do
    let _ ← machine.register? a
    return { machine.assign a value with counter := machine.counter + 3 }
  | .prn a => do
    let value ← machine.register? a
    let sink ← machine.sink.append? ((toString value.toNat).toList ++ ['\n'])
    return { machine with sink, counter := machine.counter + 2 }
  | .mul a b => do
    let left ← machine.register? a
    let right ← machine.register? b
    let product := UInt8.ofNat (left.toNat * right.toNat % 256)
    return { machine.assign a product with counter := machine.counter + 3 }
  | .cmp a b => do
    let left ← machine.register? a
    let right ← machine.register? b
    let flags :=
      match compare left.toNat right.toNat with
      | .lt => Flags.less
      | .eq => Flags.equal
      | .gt => Flags.greater
    return { machine with registers.flags := flags, counter := machine.counter + 3 }
  | .jmp a => machine.jumpTo? a
  | .jeq a =>
    if machine.registers.flags = .equal then machine.jumpTo? a
    else some { machine with counter := machine.counter + 2 }
  | .jne a =>
    if machine.registers.flags = .equal then some { machine with counter := machine.counter + 2 }
    else machine.jumpTo? a

/-- What the instruction at the counter makes of a machine. Where the guard holds the address, an
instruction that does not stop the machine keeps its effect on registers, flag and sink, but the
machine halts where it is and records nothing. -/
def interpret? (machine : Machine) : Option Machine := do
  let opcode ← machine.memory[machine.counter]?
  let a ← machine.memory[machine.counter + 1]?
  let b ← machine.memory[machine.counter + 2]?
  let instruction ← Instruction.ofBytes? opcode a b
  let after ← machine.result? instruction
  if instruction ≠ .hlt ∧ machine.config.revisitGuard = true ∧
      machine.counter ∈ machine.origins then
    return { after with
      steps := machine.steps + 1
      counter := machine.counter
      origins := machine.origins
      status := .halted }
  else
    return { after with steps := machine.steps + 1 }

end Machine

/-- The instruction of an opcode with its operand bytes. -/
def Opcode.instruction (op : Opcode) (a b : UInt8) : Instruction :=
  match op with
  | .hlt => .hlt
  | .ldi => .ldi a b
  | .prn => .prn a
  | .mul => .mul a b
  | .cmp => .cmp a b
  | .jmp => .jmp a
  | .jeq => .jeq a
  | .jne => .jne a

/-- Only the stop opcode is the stop instruction. -/
theorem Opcode.instruction_eq_hlt_iff {op : Opcode} {a b : UInt8} :
    op.instruction a b = .hlt ↔ op = .hlt := by
  cases op <;> simp [instruction]

/-- Three bytes spell an instruction exactly when the first is the byte of its opcode. -/
theorem Instruction.ofBytes?_eq_some_iff {opcode a b : UInt8} {instruction : Instruction} :
    ofBytes? opcode a b = some instruction ↔
      ∃ op : Opcode, op.byte = opcode ∧ op.instruction a b = instruction := by
  have hbyte (op : Opcode) (h : opcode.toNat = op.byte.toNat) : op.byte = opcode :=
    (UInt8.toNat_inj.mp h).symm
  refine ⟨fun h => ?_, fun h => ?_⟩
  · unfold ofBytes? at h
    split at h <;> cases h
    · exact ⟨.hlt, hbyte .hlt ‹_›, rfl⟩
    · exact ⟨.ldi, hbyte .ldi ‹_›, rfl⟩
    · exact ⟨.prn, hbyte .prn ‹_›, rfl⟩
    · exact ⟨.mul, hbyte .mul ‹_›, rfl⟩
    · exact ⟨.cmp, hbyte .cmp ‹_›, rfl⟩
    · exact ⟨.jmp, hbyte .jmp ‹_›, rfl⟩
    · exact ⟨.jeq, hbyte .jeq ‹_›, rfl⟩
    · exact ⟨.jne, hbyte .jne ‹_›, rfl⟩
  · obtain ⟨op, rfl, rfl⟩ := h
    cases op <;> rfl

/-- A line is appended exactly when it fits. -/
theorem Sink.append?_eq_some_iff {sink after : Sink} {value : UInt8} :
    sink.append? ((toString value.toNat).toList ++ ['\n']) = some after ↔
      sink.fits (line value) = true ∧ after = sink.write (line value) := by
  have hfits : (sink.capacity.all fun capacity =>
      sink.contents.size + (line value).length ≤ capacity) = sink.fits (line value) := by
    unfold fits
    cases sink.capacity with
    | none => rw [Option.all_none]
    | some capacity => rw [Option.all_some]
  rw [← line_eq_toString, append?, hfits]
  by_cases h : sink.fits (line value) = true
  · rw [if_pos h, write_of_fits h]
    simp [h, eq_comm]
  · rw [if_neg h]
    simp [h]

namespace Registers

/-- A register is read exactly with its contents. -/
theorem read_eq_ok_iff {registers : Registers} {number value : UInt8} :
    registers.read number = .ok value ↔ registers.cells[number.toNat]? = some value := by
  by_cases h : number.toNat < registerCount
  · rw [read_of_lt registers h, Vector.getElem?_eq_getElem h]
    simp
  · rw [read_of_le registers (by omega), Vector.getElem?_eq_none (by omega)]
    simp

/-- A register is written exactly when it exists. -/
theorem run_write_eq_ok_iff {registers after : Registers} {number value : UInt8} :
    (write number value).run registers = .ok () after ↔
      (∃ old, registers.cells[number.toNat]? = some old) ∧
        after = { registers with cells := registers.cells.setIfInBounds number.toNat value } := by
  by_cases h : number.toNat < registerCount
  · have hset : registers.cells.setIfInBounds number.toNat value =
        registers.cells.set number.toNat value := by
      apply Vector.ext
      intro place hplace
      rw [Vector.getElem_setIfInBounds hplace, Vector.getElem_set]
    rw [run_write_of_lt registers value h, Vector.getElem?_eq_getElem h, hset]
    simp [eq_comm]
  · rw [run_write_of_le registers value (by omega), Vector.getElem?_eq_none (by omega)]
    simp

/-- An operation on two registers succeeds exactly when both exist. -/
theorem run_compute_eq_ok_iff {registers after : Registers} {operation : Arithmetic}
    {a b : UInt8} :
    (compute operation a b).run registers = .ok () after ↔
      ∃ left right, registers.cells[a.toNat]? = some left ∧ registers.cells[b.toNat]? = some right ∧
        after = { registers with
          cells := registers.cells.setIfInBounds a.toNat (operation.apply left right) } := by
  simp only [compute, run_lookUp_bind_eq_ok_iff, read_eq_ok_iff, run_write_eq_ok_iff]
  refine ⟨fun h => ?_, fun h => ?_⟩
  · obtain ⟨left, hleft, right, hright, -, rfl⟩ := h
    exact ⟨left, right, hleft, hright, rfl⟩
  · obtain ⟨left, right, hleft, hright, rfl⟩ := h
    exact ⟨left, hleft, right, hright, ⟨left, hleft⟩, rfl⟩

/-- Two registers are compared exactly when both exist. -/
theorem run_compare_eq_ok_iff {registers after : Registers} {a b : UInt8} :
    (compare a b).run registers = .ok () after ↔
      ∃ left right, registers.cells[a.toNat]? = some left ∧ registers.cells[b.toNat]? = some right ∧
        after = { registers with flags := .ofValues left right } := by
  simp only [compare, run_lookUp_bind_eq_ok_iff, read_eq_ok_iff]
  refine ⟨fun h => ?_, fun h => ?_⟩
  · obtain ⟨left, hleft, right, hright, h⟩ := h
    cases h
    exact ⟨left, right, hleft, hright, rfl⟩
  · obtain ⟨left, right, hleft, hright, rfl⟩ := h
    exact ⟨left, hleft, right, hright, rfl⟩

end Registers

/-- The flag is the order of the values as numbers. -/
theorem Flags.ofValues_eq_compare (left right : UInt8) :
    ofValues left right =
      match compare left.toNat right.toNat with
      | .lt => less
      | .eq => equal
      | .gt => greater := by
  unfold ofValues
  rcases Nat.lt_trichotomy left.toNat right.toNat with hlt | heq | hgt
  · have hne : left ≠ right := by
      intro heq
      subst heq
      omega
    rw [if_neg hne, if_pos (UInt8.lt_iff_toNat_lt.mpr hlt), Nat.compare_eq_lt.mpr hlt]
  · rw [if_pos (UInt8.toNat_inj.mp heq), Nat.compare_eq_eq.mpr heq]
  · have hne : left ≠ right := by
      intro heq
      subst heq
      omega
    rw [if_neg hne, if_neg (by rw [UInt8.lt_iff_toNat_lt]; omega), Nat.compare_eq_gt.mpr hgt]

/-- A product of bytes wraps. -/
theorem Arithmetic.apply_mul (left right : UInt8) :
    Arithmetic.mul.apply left right = UInt8.ofNat (left.toNat * right.toNat % 256) := by
  apply UInt8.toNat_inj.mp
  rw [Arithmetic.apply, UInt8.toNat_mul, UInt8.toNat_ofNat']
  simp

namespace Machine

variable {machine after : Machine} {op : Opcode} {a b : UInt8}

/-- Where the results of an instruction lead, count and guard apart. -/
def outcome (machine : Machine) (op : Opcode) (registers : Registers) (request : Request)
    (sink : Sink) : Machine :=
  if request = .halt then { machine with registers, sink }.halt
  else { machine with registers, sink }.proceed op.fields request

/-- An effect is a success, and its results lead to the other machine. -/
def Yields (machine : Machine) (op : Opcode) (effect : Effect) (after : Machine) : Prop :=
  ∃ registers request sink, effect = ⟨.ok request, registers, sink⟩ ∧
    after = machine.outcome op registers request sink

/-- A change of the registers leads behind its instruction. -/
theorem yields_changing_iff {change : Registers.Change Unit} :
    machine.Yields op (Opcode.changing change machine.registers machine.sink) after ↔
      ∃ registers, change.run machine.registers = .ok () registers ∧
        after = { machine with registers, counter := machine.counter + op.fields.increment } := by
  refine ⟨fun h => ?_, fun h => ?_⟩
  · obtain ⟨registers, request, sink, h, rfl⟩ := h
    obtain ⟨hchange, rfl, rfl⟩ := Opcode.changing_eq_ok_iff.mp h
    exact ⟨registers, hchange, rfl⟩
  · obtain ⟨registers, hchange, rfl⟩ := h
    refine ⟨registers, .advance, machine.sink, ?_, rfl⟩
    exact Opcode.changing_eq_ok_iff.mpr ⟨hchange, rfl, rfl⟩

/-- A jump leads to the address in its register if its condition holds, and behind itself if
not. -/
theorem yields_jumpIf_iff (hop : op.IsJump) {condition : Bool} :
    machine.Yields op
        ⟨Opcode.jumpIf condition machine.registers a, machine.registers, machine.sink⟩ after ↔
      (if condition then machine.jumpTo? a
        else some { machine with counter := machine.counter + 2 }) = some after := by
  have hsets : op.fields.setsCounter = true := op.setsCounter_fields.mpr hop
  have hlength : op.fields.increment = 2 := by
    rcases hop with rfl | rfl | rfl <;> rfl
  have hjump (target : UInt8) :
      machine.outcome op machine.registers (.jump target) machine.sink = machine.jump target :=
    if_pos hsets
  have hadvance : machine.outcome op machine.registers .advance machine.sink =
      { machine with counter := machine.counter + 2 } := by
    rw [← hlength]
    rfl
  refine ⟨fun h => ?_, fun h => ?_⟩
  · obtain ⟨registers, request, sink, h, rfl⟩ := h
    injection h with houtcome hregisters hsink
    subst hregisters hsink
    rcases Opcode.jumpIf_eq_ok_iff.mp houtcome with ⟨rfl, target, hread, rfl⟩ | ⟨rfl, rfl⟩
    · rw [hjump]
      exact Option.bind_eq_some_iff.mpr ⟨target, Registers.read_eq_ok_iff.mp hread, rfl⟩
    · rw [hadvance]
      rfl
  · cases condition with
    | true =>
      obtain ⟨target, hread, h⟩ := Option.bind_eq_some_iff.mp h
      cases h
      refine ⟨machine.registers, .jump target, machine.sink, ?_, (hjump target).symm⟩
      rw [Opcode.jumpIf_eq_ok_iff.mpr
        (Or.inl ⟨rfl, target, Registers.read_eq_ok_iff.mpr hread, rfl⟩)]
    | false =>
      cases h
      exact ⟨machine.registers, .advance, machine.sink, rfl, hadvance.symm⟩

/-- Printing leads behind its instruction, with a line more in the sink. -/
theorem yields_print_iff :
    machine.Yields .prn (Opcode.print machine.registers machine.sink a) after ↔
      machine.result? (.prn a) = some after := by
  refine ⟨fun h => ?_, fun h => ?_⟩
  · obtain ⟨registers, request, sink, h, rfl⟩ := h
    obtain ⟨value, hread, hfits, rfl, rfl, rfl⟩ := Opcode.print_eq_ok_iff.mp h
    refine Option.bind_eq_some_iff.mpr ⟨value, Registers.read_eq_ok_iff.mp hread, ?_⟩
    exact Option.bind_eq_some_iff.mpr ⟨_, Sink.append?_eq_some_iff.mpr ⟨hfits, rfl⟩, rfl⟩
  · obtain ⟨value, hread, h⟩ := Option.bind_eq_some_iff.mp h
    obtain ⟨sink, happend, h⟩ := Option.bind_eq_some_iff.mp h
    obtain ⟨hfits, rfl⟩ := Sink.append?_eq_some_iff.mp happend
    cases h
    refine ⟨machine.registers, .advance, machine.sink.write (Sink.line value), ?_, rfl⟩
    exact Opcode.print_eq_ok_iff.mpr
      ⟨value, Registers.read_eq_ok_iff.mpr hread, hfits, rfl, rfl, rfl⟩

/-- An instruction makes of a machine what the execution of its opcode leads to. -/
theorem yields_execute_iff :
    machine.Yields op (op.execute machine.registers machine.sink a b) after ↔
      machine.result? (op.instruction a b) = some after := by
  cases op with
  | hlt =>
    refine ⟨fun h => ?_, fun h => ?_⟩
    · obtain ⟨registers, request, sink, h, rfl⟩ := h
      cases h
      rfl
    · cases h
      exact ⟨machine.registers, .halt, machine.sink, rfl, rfl⟩
  | ldi =>
    refine yields_changing_iff.trans ?_
    simp only [Registers.run_write_eq_ok_iff]
    refine ⟨fun h => ?_, fun h => ?_⟩
    · obtain ⟨registers, ⟨⟨old, hold⟩, rfl⟩, rfl⟩ := h
      exact Option.bind_eq_some_iff.mpr ⟨old, hold, rfl⟩
    · obtain ⟨old, hold, h⟩ := Option.bind_eq_some_iff.mp h
      cases h
      exact ⟨_, ⟨⟨old, hold⟩, rfl⟩, rfl⟩
  | prn => exact yields_print_iff
  | mul =>
    refine yields_changing_iff.trans ?_
    simp only [Registers.run_compute_eq_ok_iff, Arithmetic.apply_mul]
    refine ⟨fun h => ?_, fun h => ?_⟩
    · obtain ⟨registers, ⟨left, right, hleft, hright, rfl⟩, rfl⟩ := h
      refine Option.bind_eq_some_iff.mpr ⟨left, hleft, ?_⟩
      exact Option.bind_eq_some_iff.mpr ⟨right, hright, rfl⟩
    · obtain ⟨left, hleft, h⟩ := Option.bind_eq_some_iff.mp h
      obtain ⟨right, hright, h⟩ := Option.bind_eq_some_iff.mp h
      cases h
      exact ⟨_, ⟨left, right, hleft, hright, rfl⟩, rfl⟩
  | cmp =>
    refine yields_changing_iff.trans ?_
    simp only [Registers.run_compare_eq_ok_iff, Flags.ofValues_eq_compare]
    refine ⟨fun h => ?_, fun h => ?_⟩
    · obtain ⟨registers, ⟨left, right, hleft, hright, rfl⟩, rfl⟩ := h
      refine Option.bind_eq_some_iff.mpr ⟨left, hleft, ?_⟩
      exact Option.bind_eq_some_iff.mpr ⟨right, hright, rfl⟩
    · obtain ⟨left, hleft, h⟩ := Option.bind_eq_some_iff.mp h
      obtain ⟨right, hright, h⟩ := Option.bind_eq_some_iff.mp h
      cases h
      exact ⟨_, ⟨left, right, hleft, hright, rfl⟩, rfl⟩
  | jmp => exact yields_jumpIf_iff (Or.inl rfl)
  | jeq =>
    refine (yields_jumpIf_iff (Or.inr (Or.inl rfl))).trans ?_
    simp [Opcode.instruction, result?, Flags.isEqual]
  | jne =>
    refine (yields_jumpIf_iff (Or.inr (Or.inr rfl))).trans ?_
    simp [Opcode.instruction, result?, Flags.isEqual, ite_not]

/-- The interpreter says of a machine that executes an instruction where it is after the step. -/
theorem Executes.interpret?_eq {registers : Registers} {request : Request} {sink : Sink}
    (h : machine.Executes op a b registers request sink) :
    machine.interpret? = some machine.step.machine := by
  obtain ⟨hopcode, ha, hb⟩ := fetch_eq_ok_iff.mp (decode_eq_ok_iff.mp h.decoded)
  have hspelled : Instruction.ofBytes? op.byte a b = some (op.instruction a b) :=
    Instruction.ofBytes?_eq_some_iff.mpr ⟨op, rfl, rfl⟩
  have happly : machine.result? (op.instruction a b) =
      some (machine.outcome op registers request sink) :=
    yields_execute_iff.mp ⟨registers, request, sink, h.executed, rfl⟩
  unfold interpret?
  rw [hopcode, ha, hb]
  simp only [Option.bind_eq_bind, Option.bind_some, hspelled, happly, ne_eq,
    Opcode.instruction_eq_hlt_iff]
  have hhalt := Opcode.request_eq_halt_iff h.executed
  by_cases hrequest : request = .halt
  · rw [(h.step_of_halt hrequest).2, if_neg (by simp [hhalt.mp hrequest]), outcome,
      if_pos hrequest]
    rfl
  · have hop : op ≠ .hlt := fun hop => hrequest (hhalt.mpr hop)
    have hcounter : (machine.withResults registers sink).counter =
      { machine with registers, sink }.counter := rfl
    obtain ⟨counter, origins, hmoved, hproceed⟩ := proceed_congr hcounter rfl op.fields request
    rw [outcome, if_neg hrequest, hmoved]
    by_cases hguarded : machine.Guarded
    · rw [(h.step_of_guarded hrequest hguarded).2, if_pos ⟨hop, hguarded⟩]
      rfl
    · rw [(h.step_of_proceed hrequest hguarded).2, if_neg fun hholds => hguarded hholds.2,
        hproceed]
      rfl

/-- Where the interpreter finds an instruction that can be executed, a machine that runs below its
limit executes it. -/
theorem exists_executes_of_interpret? (running : machine.status = .running)
    (belowLimit : machine.reachedLimit? = none) (h : machine.interpret? = some after) :
    ∃ op a b registers request sink, machine.Executes op a b registers request sink := by
  obtain ⟨opcode, hopcode, h⟩ := Option.bind_eq_some_iff.mp h
  obtain ⟨a, ha, h⟩ := Option.bind_eq_some_iff.mp h
  obtain ⟨b, hb, h⟩ := Option.bind_eq_some_iff.mp h
  obtain ⟨instruction, hspelled, h⟩ := Option.bind_eq_some_iff.mp h
  obtain ⟨moved, happly, -⟩ := Option.bind_eq_some_iff.mp h
  obtain ⟨op, rfl, rfl⟩ := Instruction.ofBytes?_eq_some_iff.mp hspelled
  obtain ⟨registers, request, sink, hexecuted, -⟩ := yields_execute_iff.mpr happly
  have hdecoded : machine.decode = .ok (op, a, b) :=
    decode_eq_ok_iff.mpr (fetch_eq_ok_iff.mpr ⟨hopcode, ha, hb⟩)
  exact ⟨op, a, b, registers, request, sink, ⟨running, belowLimit, hdecoded⟩, hexecuted⟩

/-- A successful step of a running machine does what the interpreter says, counts one instruction,
and keeps memory, stack pointer and configuration. Below the limit a step succeeds wherever the
interpreter gives a machine. -/
theorem step_implements_instruction_set {machine : Machine} (running : machine.status = .running) :
    (∀ status, machine.step.answer = .ok status →
      machine.interpret? = some machine.step.machine ∧
        machine.step.machine.status = status ∧
        machine.step.machine.steps = machine.steps + 1 ∧
        machine.step.machine.memory = machine.memory ∧
        machine.step.machine.stackPointer = machine.stackPointer ∧
        machine.step.machine.config = machine.config) ∧
    ∀ after, machine.interpret? = some after →
      (∀ limit, machine.config.stepLimit = some limit → machine.steps < limit) →
        machine.step.answer = .ok after.status ∧ machine.step.machine = after := by
  refine ⟨?_, ?_⟩
  · intro status hanswer
    obtain ⟨op, a, b, registers, request, sink, h⟩ := exists_executes running hanswer
    obtain ⟨-, hstatus, hsteps⟩ := step_counts running hanswer
    obtain ⟨hconfig, hmemory, hstackPointer, -⟩ := machine.step_frame
    exact ⟨h.interpret?_eq, hstatus, hsteps, hmemory, hstackPointer, hconfig⟩
  · intro after hafter hbelow
    obtain ⟨op, a, b, registers, request, sink, h⟩ :=
      exists_executes_of_interpret? running (reachedLimit?_eq_none_iff.mpr hbelow) hafter
    obtain ⟨status, hanswer⟩ := h.step_ok
    obtain ⟨-, hstatus, -⟩ := step_counts running hanswer
    rw [h.interpret?_eq] at hafter
    obtain rfl := Option.some.inj hafter
    exact ⟨hanswer.trans (congrArg _ hstatus.symm), rfl⟩

/-- With its first step the doubling program loads one into R0. With its twelfth it comes back to
its jump, and the interpreter halts it there, too. -/
theorem step_implements_instruction_set_doubling :
    (loaded {} {} doubling).interpret? = some (loaded {} {} doubling).step.machine ∧
      ((loaded {} {} doubling).stepped 11).interpret? =
        some ((loaded {} {} doubling).stepped 12) ∧
      ((loaded {} {} doubling).stepped 12).status = .halted := by
  have hfirst : (loaded {} {} doubling).step.answer = .ok .running := by decide +kernel
  have hrunning : ((loaded {} {} doubling).stepped 11).status = .running := by decide +kernel
  have htwelfth : ((loaded {} {} doubling).stepped 11).step.answer = .ok .halted := by
    decide +kernel
  obtain ⟨hinterpret, -⟩ := (step_implements_instruction_set rfl).1 _ hfirst
  obtain ⟨hinterpret', hhalted, -⟩ := (step_implements_instruction_set hrunning).1 _ htwelfth
  rw [← stepped_succ] at hinterpret' hhalted
  exact ⟨hinterpret, hinterpret', hhalted⟩

end Machine

end ByteMachine
