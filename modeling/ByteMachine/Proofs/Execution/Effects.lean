import ByteMachine.Proofs.Execution.InstructionSet

/-!
# What a step does, told from its instruction

A step that succeeds does what the instruction set says of the instruction at the counter
(`exists_result`). Two things can be told of a machine before it is stepped: whether the step takes
a jump (`takesJump`) and which values it compares (`compared?`). The first decides about the origins
and the second about the flag, and nothing else changes either of them. A step that fails takes no
jump and compares nothing, whatever its instruction is.
-/

namespace ByteMachine

/-- Whether an instruction is a jump that is taken under a flag. -/
def Instruction.jumps (flags : Flags) : Instruction → Bool
  | .jmp _ => true
  | .jeq _ => flags = .equal
  | .jne _ => flags ≠ .equal
  | .hlt | .ldi .. | .prn _ | .mul .. | .cmp .. => false

/-- The flag for two values, by their order as numbers. -/
def Flags.ofOrder (left right : UInt8) : Flags :=
  match compare left.toNat right.toNat with
  | .lt => .less
  | .eq => .equal
  | .gt => .greater

/-- It is the flag that a comparison sets. -/
theorem Flags.ofOrder_eq_ofValues (left right : UInt8) :
    ofOrder left right = ofValues left right :=
  (ofValues_eq_compare left right).symm

namespace Machine

/-- The instruction that the three bytes at the counter spell, with zeros beyond the end of
memory. -/
def instruction? (machine : Machine) : Option Instruction :=
  Instruction.ofBytes? (machine.memory.peek machine.counter)
    (machine.memory.peek (machine.counter + 1)) (machine.memory.peek (machine.counter + 2))

/-- Whether the next step takes a jump: it goes on, and its instruction is a jump whose condition
holds. -/
def takesJump (machine : Machine) : Bool :=
  machine.step.answer = .ok .running &&
    machine.instruction?.any (Instruction.jumps machine.registers.flags)

/-- The two values that the next step compares: the machine is running, the step succeeds, and its
instruction is a comparison of the registers that hold them. -/
def compared? (machine : Machine) : Option (UInt8 × UInt8) :=
  match machine.status, machine.step.answer, machine.instruction? with
  | .running, .ok _, some (.cmp a b) => do
    let left ← machine.register? a
    let right ← machine.register? b
    return (left, right)
  | _, _, _ => none

/-- The next step leads to the address in a register and records the jump. -/
def JumpsTo (machine : Machine) (a : UInt8) : Prop :=
  ∃ target, machine.register? a = some target ∧
    machine.step.machine = { machine with
      counter := target.toNat
      origins := machine.origins.insert machine.counter
      steps := machine.steps + 1 }

variable {machine after : Machine} {op : Opcode} {a b : UInt8} {registers : Registers}
  {request : Request} {sink : Sink} {instruction : Instruction} {status : Status}

/-- The three bytes at the counter spell the instruction that a machine has come to. -/
theorem Dispatches.instruction?_eq (h : machine.Dispatches op a b) :
    machine.instruction? = some (op.instruction a b) := by
  obtain ⟨hopcode, ha, hb⟩ := fetch_eq_ok_iff.mp (decode_eq_ok_iff.mp h.decoded)
  simp only [instruction?, Memory.peek, hopcode, ha, hb, Option.getD_some]
  exact Instruction.ofBytes?_eq_some_iff.mpr ⟨op, rfl, rfl⟩

/-- The instruction set says where the results of an executed instruction lead. -/
theorem Executes.result?_eq (h : machine.Executes op a b registers request sink) :
    machine.result? (op.instruction a b) = some (machine.outcome op registers request sink) :=
  yields_execute_iff.mp ⟨registers, request, sink, h.executed, rfl⟩

/-- Where the results of an instruction lead, registers and sink are those results. -/
theorem outcome_frame (machine : Machine) (op : Opcode) (registers : Registers) (request : Request)
    (sink : Sink) :
    (machine.outcome op registers request sink).registers = registers ∧
      (machine.outcome op registers request sink).sink = sink := by
  obtain ⟨counter, origins, hproceed⟩ :=
    ({ machine with registers, sink } : Machine).proceed_frame op.fields request
  unfold outcome
  split
  · exact ⟨rfl, rfl⟩
  · rw [hproceed]
    exact ⟨rfl, rfl⟩

/-- A running machine whose step succeeds does what the instruction set says of its instruction, and
counts it. If the step halts, only registers and sink are taken over. -/
theorem exists_result (running : machine.status = .running)
    (h : machine.step.answer = .ok status) :
    ∃ instruction after, machine.instruction? = some instruction ∧
      machine.result? instruction = some after ∧
      ((status = .running ∧ instruction ≠ .hlt ∧
          machine.step.machine = { after with steps := machine.steps + 1 }) ∨
        (status = .halted ∧ machine.step.machine =
          { machine with
            registers := after.registers
            sink := after.sink
            status := .halted
            steps := machine.steps + 1 })) := by
  obtain ⟨op, a, b, registers, request, sink, hexecutes⟩ := exists_executes running h
  obtain ⟨hregisters, hsink⟩ := machine.outcome_frame op registers request sink
  refine ⟨_, _, hexecutes.toDispatches.instruction?_eq, hexecutes.result?_eq, ?_⟩
  rcases hexecutes.step_cases with ⟨hanswer, hmachine⟩ | ⟨hrequest, -, hanswer, hmachine⟩
  · rw [h] at hanswer
    cases hanswer
    rw [hregisters, hsink, hmachine]
    exact Or.inr ⟨rfl, rfl⟩
  · rw [h] at hanswer
    cases hanswer
    have hcounter : (machine.withResults registers sink).counter =
      { machine with registers, sink }.counter := rfl
    obtain ⟨counter, origins, hmoved, hproceed⟩ := proceed_congr hcounter rfl op.fields request
    have hop : op.instruction a b ≠ .hlt := fun hhlt =>
      hrequest ((Opcode.request_eq_halt_iff hexecutes.executed).mpr
        (Opcode.instruction_eq_hlt_iff.mp hhlt))
    refine Or.inl ⟨rfl, hop, ?_⟩
    rw [hmachine, hproceed, outcome, if_neg hrequest, hmoved]
    rfl

/-- A step that goes on does what the instruction set says of its instruction, and counts it. -/
theorem exists_result_of_running (h : machine.step.answer = .ok .running) :
    ∃ instruction after, machine.instruction? = some instruction ∧
      machine.result? instruction = some after ∧ instruction ≠ .hlt ∧
        machine.step.machine = { after with steps := machine.steps + 1 } := by
  obtain ⟨instruction, after, hinstruction, hresult, hmachine⟩ :=
    exists_result (running_of_step h) h
  obtain ⟨-, hhlt, hmachine⟩ := hmachine.resolve_right fun hhalted => by cases hhalted.1
  exact ⟨instruction, after, hinstruction, hresult, hhlt, hmachine⟩

/-- A jump that is taken leads to the address in its register and is recorded. -/
theorem jumpTo?_eq_some_iff :
    machine.jumpTo? a = some after ↔
      ∃ target, machine.register? a = some target ∧
        after = { machine with
          counter := target.toNat
          origins := machine.origins.insert machine.counter } := by
  simp only [jumpTo?, Option.bind_eq_bind, Option.bind_eq_some_iff, Option.pure_def,
    Option.some.injEq, eq_comm (b := after)]

/-- What an instruction makes of a machine: it stops it, takes a jump, compares two registers, or
leads two or three bytes further and touches neither flag nor origins. -/
inductive Leads (machine : Machine) : Instruction → Machine → Prop
  | stops : machine.Leads .hlt { machine with status := .halted }
  | jumps {instruction : Instruction} {a target : UInt8}
      (taken : instruction.jumps machine.registers.flags = true)
      (held : machine.register? a = some target) :
      machine.Leads instruction { machine with
        counter := target.toNat
        origins := machine.origins.insert machine.counter }
  | compares {a b left right : UInt8} (first : machine.register? a = some left)
      (second : machine.register? b = some right) :
      machine.Leads (.cmp a b) { machine with
        registers.flags := .ofOrder left right
        counter := machine.counter + 3 }
  | passes {instruction : Instruction} {registers : Registers} {sink : Sink} {counter : Nat}
      (untaken : instruction.jumps machine.registers.flags = false)
      (other : ∀ a b, instruction ≠ .cmp a b)
      (same : registers.flags = machine.registers.flags) (beyond : machine.counter + 2 ≤ counter) :
      machine.Leads instruction { machine with registers, sink, counter }

/-- Every result of an instruction is one of these. -/
theorem leads_of_result? (h : machine.result? instruction = some after) :
    machine.Leads instruction after := by
  have jump {a : UInt8} (htaken : instruction.jumps machine.registers.flags = true)
      (hjump : machine.jumpTo? a = some after) : machine.Leads instruction after := by
    obtain ⟨target, htarget, rfl⟩ := jumpTo?_eq_some_iff.mp hjump
    exact .jumps htaken htarget
  cases instruction with
  | hlt =>
    cases h
    exact .stops
  | ldi a value =>
    obtain ⟨old, -, h⟩ := Option.bind_eq_some_iff.mp h
    cases h
    exact .passes rfl (by simp) rfl (Nat.le_succ _)
  | prn a =>
    obtain ⟨value, -, h⟩ := Option.bind_eq_some_iff.mp h
    obtain ⟨sink, -, h⟩ := Option.bind_eq_some_iff.mp h
    cases h
    exact .passes rfl (by simp) rfl (Nat.le_refl _)
  | mul a b =>
    obtain ⟨left, -, h⟩ := Option.bind_eq_some_iff.mp h
    obtain ⟨right, -, h⟩ := Option.bind_eq_some_iff.mp h
    cases h
    exact .passes rfl (by simp) rfl (Nat.le_succ _)
  | cmp a b =>
    obtain ⟨left, hleft, h⟩ := Option.bind_eq_some_iff.mp h
    obtain ⟨right, hright, h⟩ := Option.bind_eq_some_iff.mp h
    cases h
    exact .compares hleft hright
  | jmp a => exact jump rfl h
  | jeq a =>
    by_cases hequal : machine.registers.flags = .equal
    · simp only [result?, if_pos hequal] at h
      exact jump (decide_eq_true hequal) h
    · simp only [result?, if_neg hequal] at h
      cases h
      exact .passes (decide_eq_false hequal) (by simp) rfl (Nat.le_refl _)
  | jne a =>
    by_cases hequal : machine.registers.flags = .equal
    · simp only [result?, if_pos hequal] at h
      cases h
      exact .passes (by simp [Instruction.jumps, hequal]) (by simp) rfl (Nat.le_refl _)
    · simp only [result?, if_neg hequal] at h
      exact jump (by simp [Instruction.jumps, hequal]) h

/-- Only a comparison sets the flag, by the order of its two registers. -/
theorem flags_of_result? (h : machine.result? instruction = some after) :
    (∃ a b left right, instruction = .cmp a b ∧ machine.register? a = some left ∧
        machine.register? b = some right ∧ after.registers.flags = .ofOrder left right) ∨
      ((∀ a b, instruction ≠ .cmp a b) ∧ after.registers.flags = machine.registers.flags) := by
  cases leads_of_result? h with
  | stops => exact Or.inr ⟨by simp, rfl⟩
  | jumps htaken _ =>
    refine Or.inr ⟨?_, rfl⟩
    rintro a b rfl
    cases htaken
  | compares hleft hright => exact Or.inl ⟨_, _, _, _, rfl, hleft, hright, rfl⟩
  | passes _ hother hsame _ => exact Or.inr ⟨hother, hsame⟩

/-- A step takes a jump exactly when it goes on and its instruction is a jump whose condition
holds. -/
theorem takesJump_iff :
    machine.takesJump = true ↔ machine.step.answer = .ok .running ∧
      ∃ instruction, machine.instruction? = some instruction ∧
        instruction.jumps machine.registers.flags = true := by
  simp [takesJump, Option.any_eq_true]

/-- A step that goes on takes a jump, or leads further and adds no origin. -/
theorem step_takesJump_cases (h : machine.step.answer = .ok .running) :
    (machine.takesJump = true ∧ ∃ a, machine.JumpsTo a) ∨
      (machine.takesJump = false ∧ machine.counter + 2 ≤ machine.step.machine.counter ∧
        machine.step.machine.origins = machine.origins) := by
  obtain ⟨instruction, after, hinstruction, hresult, hhlt, hmachine⟩ := exists_result_of_running h
  have htakes : machine.takesJump = instruction.jumps machine.registers.flags := by
    simp [takesJump, h, hinstruction]
  rw [htakes, hmachine]
  cases leads_of_result? hresult with
  | stops => exact absurd rfl hhlt
  | jumps htaken hheld => exact Or.inl ⟨htaken, _, _, hheld, hmachine⟩
  | compares => exact Or.inr ⟨rfl, Nat.le_succ _, rfl⟩
  | passes huntaken _ _ hbeyond => exact Or.inr ⟨huntaken, hbeyond, rfl⟩

/-- A step that takes a jump adds its address to the origins, and no other step adds any. -/
theorem origins_step (machine : Machine) :
    machine.step.machine.origins =
      if machine.takesJump then machine.origins.insert machine.counter else machine.origins := by
  by_cases hgoes : machine.step.answer = .ok .running
  · rcases step_takesJump_cases hgoes with
      ⟨htakes, a, target, -, hmachine⟩ | ⟨htakes, -, horigins⟩
    · rw [hmachine, htakes]
      rfl
    · rw [horigins, htakes]
      rfl
  · have htakes : machine.takesJump = false := by simp [takesJump, hgoes]
    rw [htakes]
    rcases machine.step_idle_or_executes with ⟨sink, -, hmachine, -⟩ |
      ⟨op, a, b, registers, request, sink, hexecutes⟩
    · rw [hmachine]
      rfl
    · rcases hexecutes.step_cases with ⟨-, hmachine⟩ | ⟨-, -, hanswer, -⟩
      · rw [hmachine]
        rfl
      · exact absurd hanswer hgoes

/-- A step that compares two values sets the flag by their order, and no other step touches it. -/
theorem flags_step (machine : Machine) :
    machine.step.machine.registers.flags =
      machine.compared?.elim machine.registers.flags fun values =>
        .ofOrder values.1 values.2 := by
  rcases machine.step_idle_or_executes with ⟨sink, -, hmachine, hfails⟩ |
    ⟨op, a, b, registers, request, sink, hexecutes⟩
  · have hnone : machine.compared? = none := by
      cases hstatus : machine.status with
      | halted => simp [compared?, hstatus]
      | running =>
        obtain ⟨fault, hfault⟩ := hfails hstatus
        simp [compared?, hfault]
    rw [hnone, hmachine]
    rfl
  · have hrunning := hexecutes.running
    obtain ⟨status, hanswer⟩ := hexecutes.step_ok
    obtain ⟨instruction, after, hinstruction, hresult, hmachine⟩ := exists_result hrunning hanswer
    have hregisters : machine.step.machine.registers = after.registers := by
      rcases hmachine with ⟨-, -, hmachine⟩ | ⟨-, hmachine⟩
      · rw [hmachine]
      · rw [hmachine]
    rw [hregisters]
    rcases flags_of_result? hresult with ⟨a, b, left, right, rfl, hleft, hright, hflags⟩ |
      ⟨hother, hflags⟩
    · have hcompared : machine.compared? = some (left, right) := by
        simp [compared?, hrunning, hanswer, hinstruction, hleft, hright]
      rw [hflags, hcompared]
      rfl
    · have hcompared : machine.compared? = none := by
        unfold compared?
        split
        · rename_i a b _ _ hcmp
          rw [hinstruction] at hcmp
          exact absurd (Option.some.inj hcmp) (hother a b)
        · rfl
      rw [hflags, hcompared]
      rfl

end Machine

end ByteMachine
