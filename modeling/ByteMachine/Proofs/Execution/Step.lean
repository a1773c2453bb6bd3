import ByteMachine.Machine.Step
import ByteMachine.Proofs.Execution.Instruction

/-!
# What one step can do

A step meets one of five situations, which `Stage` lists: the machine is halted, its limit has been
reached, no instruction is found, an instruction is found and fails, or it yields results. The last
is `Executes`. This module opens the definition of a step once, gives an equation for each of the
situations, and derives from them what every step keeps, counts and moves.
-/

namespace ByteMachine

namespace Turn

variable {α : Type} (earlier : List Event) (turn : Turn α)

/-- Earlier events do not change an answer. -/
@[simp] theorem answer_reporting : (turn.reporting earlier).answer = turn.answer := rfl

/-- Earlier events do not change a machine. -/
@[simp] theorem machine_reporting : (turn.reporting earlier).machine = turn.machine := rfl

/-- Earlier events come first. -/
@[simp] theorem events_reporting :
    (turn.reporting earlier).events = earlier ++ turn.events := rfl

/-- Events reported before those before a turn come first of all. -/
theorem reporting_reporting (first : List Event) :
    (turn.reporting earlier).reporting first = turn.reporting (first ++ earlier) := by
  simp only [reporting, List.append_assoc]

/-- A turn without events reports those before it. -/
theorem reporting_of_silent (answer : Except Fault α) (machine : Machine) :
    (Turn.mk answer machine []).reporting earlier = ⟨answer, machine, earlier⟩ := by
  simp only [reporting, List.append_nil]

end Turn

namespace Machine

/-- The three bytes are fetched exactly when the memory holds them. -/
theorem fetch_eq_ok_iff {machine : Machine} {fetched : Fetched} :
    machine.fetch = .ok fetched ↔
      machine.memory[machine.counter]? = some fetched.opcode ∧
        machine.memory[machine.counter + 1]? = some fetched.a ∧
          machine.memory[machine.counter + 2]? = some fetched.b := by
  simp only [fetch, bind_eq_ok_iff, Memory.read_eq_ok_iff]
  refine ⟨fun h => ?_, fun h => ?_⟩
  · obtain ⟨opcode, hopcode, a, ha, b, hb, h⟩ := h
    cases h
    exact ⟨hopcode, ha, hb⟩
  · obtain ⟨hopcode, ha, hb⟩ := h
    exact ⟨_, hopcode, _, ha, _, hb, rfl⟩

/-- Below address 254 the three bytes are there. -/
theorem fetch_of_within {machine : Machine} (h : machine.counter + 2 < memorySize) :
    machine.fetch = .ok ⟨machine.memory.peek machine.counter,
      machine.memory.peek (machine.counter + 1), machine.memory.peek (machine.counter + 2)⟩ := by
  have hbyte (offset : Nat) (hle : offset ≤ 2) : machine.memory[machine.counter + offset]? =
      some (machine.memory.peek (machine.counter + offset)) := by
    have hlt : machine.counter + offset < memorySize := by omega
    rw [Memory.peek, Vector.getElem?_eq_getElem hlt, Option.getD_some]
  exact fetch_eq_ok_iff.mpr ⟨hbyte 0 (by omega), hbyte 1 (by omega), hbyte 2 (by omega)⟩

/-- From address 254 on, the first of the three bytes that is missing is reported. -/
theorem fetch_of_missed {machine : Machine} (h : memorySize ≤ machine.counter + 2) :
    machine.fetch = .error (.outOfRange .memory (max machine.counter memorySize)) := by
  rcases Nat.le_total machine.counter memorySize with hwithin | hbeyond
  · rw [fetch_of_le h hwithin, Nat.max_eq_right hwithin]
  · rw [fetch, Memory.read_of_le _ hbeyond, Nat.max_eq_left hbeyond]
    rfl

/-- The instruction at the program counter with its two operand bytes. -/
def decode (machine : Machine) : Except Fault (Opcode × UInt8 × UInt8) := do
  let fetched ← machine.fetch
  let op ← Opcode.ofByte fetched.opcode
  return (op, fetched.a, fetched.b)

/-- Below address 254 only the first byte can keep an instruction from being decoded. -/
theorem decode_of_within {machine : Machine} (h : machine.counter + 2 < memorySize) :
    machine.decode = (Opcode.ofByte (machine.memory.peek machine.counter)).map fun op =>
      (op, machine.memory.peek (machine.counter + 1),
        machine.memory.peek (machine.counter + 2)) := by
  rw [decode, fetch_of_within h]
  change (Opcode.ofByte _ >>= _) = _
  cases Opcode.ofByte (machine.memory.peek machine.counter) <;> rfl

/-- From address 254 on nothing is decoded. -/
theorem decode_of_missed {machine : Machine} (h : memorySize ≤ machine.counter + 2) :
    machine.decode = .error (.outOfRange .memory (max machine.counter memorySize)) := by
  rw [decode, fetch_of_missed h]
  rfl

/-- An instruction is decoded exactly when its byte and two more are fetched. -/
theorem decode_eq_ok_iff {machine : Machine} {op : Opcode} {a b : UInt8} :
    machine.decode = .ok (op, a, b) ↔ machine.fetch = .ok ⟨op.byte, a, b⟩ := by
  simp only [decode, bind_eq_ok_iff, Opcode.ofByte_eq_ok_iff]
  refine ⟨fun h => ?_, fun h => ?_⟩
  · obtain ⟨fetched, hfetch, op', hop, h⟩ := h
    cases h
    rw [hfetch, hop]
  · exact ⟨_, h, op, rfl, rfl⟩

/-- No instruction is found only where the memory ends or another byte stands. -/
theorem decode_fault {machine : Machine} {fault : Fault} (h : machine.decode = .error fault) :
    (memorySize ≤ machine.counter + 2 ∧
        fault = .outOfRange .memory (max machine.counter memorySize)) ∨
      (machine.counter + 2 < memorySize ∧
        fault = .unknownOpcode (machine.memory.peek machine.counter)) := by
  rcases Nat.lt_or_ge (machine.counter + 2) memorySize with hwithin | hmissed
  · rw [decode_of_within hwithin] at h
    cases hop : Opcode.ofByte (machine.memory.peek machine.counter) with
    | error cause =>
      rw [hop] at h
      cases h
      exact Or.inr ⟨hwithin, Opcode.fault_of_ofByte hop⟩
    | ok op =>
      rw [hop] at h
      cases h
  · rw [decode_of_missed hmissed] at h
    cases h
    exact Or.inl ⟨hmissed, rfl⟩

/-- A machine has come to an instruction with two operand bytes. -/
structure Dispatches (machine : Machine) (op : Opcode) (a b : UInt8) : Prop where
  running : machine.status = .running
  belowLimit : machine.reachedLimit? = none
  decoded : machine.decode = .ok (op, a, b)

/-- A machine executes an instruction, which yields registers, a request and a sink. -/
structure Executes (machine : Machine) (op : Opcode) (a b : UInt8) (registers : Registers)
    (request : Request) (sink : Sink) : Prop extends machine.Dispatches op a b where
  executed : op.execute machine.registers machine.sink a b = ⟨.ok request, registers, sink⟩

/-- What a step can meet, in the order in which it looks. -/
inductive Stage (machine : Machine) : Prop where
  | halted (status : machine.status = .halted)
  | limited {limit : Nat} (running : machine.status = .running)
      (reached : machine.reachedLimit? = some limit)
  | undecoded {fault : Fault} (running : machine.status = .running)
      (belowLimit : machine.reachedLimit? = none) (undecoded : machine.decode = .error fault)
  | refused {op : Opcode} {a b : UInt8} {fault : Fault} {sink : Sink}
      (dispatches : machine.Dispatches op a b)
      (refused : op.execute machine.registers machine.sink a b =
        ⟨.error fault, machine.registers, sink⟩)
  | executes {op : Opcode} {a b : UInt8} {registers : Registers} {request : Request} {sink : Sink}
      (executes : machine.Executes op a b registers request sink)

/-- Every step meets one of these. -/
theorem stage (machine : Machine) : machine.Stage := by
  cases hstatus : machine.status with
  | halted => exact .halted hstatus
  | running =>
    cases hlimit : machine.reachedLimit? with
    | some limit => exact .limited hstatus hlimit
    | none =>
      cases hdecode : machine.decode with
      | error fault => exact .undecoded hstatus hlimit hdecode
      | ok decoded =>
        obtain ⟨op, a, b⟩ := decoded
        cases hexecute : op.execute machine.registers machine.sink a b with
        | mk outcome registers sink =>
          cases outcome with
          | error fault =>
            -- The handler has worked on the machine's own registers, but it has changed none.
            obtain ⟨-, rfl⟩ := Opcode.of_execute_eq_error hexecute
            exact .refused ⟨hstatus, hlimit, hdecode⟩ hexecute
          | ok request => exact .executes ⟨⟨hstatus, hlimit, hdecode⟩, hexecute⟩

/-- The machine with the results of an instruction, counted but not yet moved on. -/
def withResults (machine : Machine) (registers : Registers) (sink : Sink) : Machine :=
  { machine with registers, sink, steps := machine.steps + 1 }

/-- Whether the guard stops a machine at its present address. -/
def Guarded (machine : Machine) : Prop :=
  machine.config.revisitGuard = true ∧ machine.counter ∈ machine.origins

/-- A request to stop halts the machine where it is. -/
theorem settle_of_halt (machine : Machine) (fields : Fields) :
    machine.settle fields .halt =
      ⟨.ok .halted, machine.halt, [.halted machine.counter machine.steps]⟩ := rfl

/-- The guard halts the machine where it is. -/
theorem settle_of_guarded {machine : Machine} {fields : Fields} {request : Request}
    (hrequest : request ≠ .halt) (hguarded : machine.Guarded) :
    machine.settle fields request = ⟨.ok .halted, machine.halt, [.revisited machine.counter]⟩ := by
  rw [settle, if_neg hrequest]
  exact if_pos hguarded

/-- Otherwise the machine goes on as it is asked to. -/
theorem settle_of_proceed {machine : Machine} {fields : Fields} {request : Request}
    (hrequest : request ≠ .halt) (hguarded : ¬machine.Guarded) :
    machine.settle fields request = ⟨.ok .running, machine.proceed fields request, []⟩ := by
  rw [settle, if_neg hrequest]
  exact if_neg hguarded

/-- No limit has been reached exactly when a limit that is set is larger than the count. -/
theorem reachedLimit?_eq_none_iff {machine : Machine} :
    machine.reachedLimit? = none ↔
      ∀ limit, machine.config.stepLimit = some limit → machine.steps < limit := by
  simp only [reachedLimit?, Option.filter_eq_none_iff, decide_eq_true_eq, Nat.not_le]

/-- A running machine that has reached its limit fails and stays as it is. -/
theorem step_of_reachedLimit {machine : Machine} {limit : Nat} (running : machine.status = .running)
    (reached : machine.reachedLimit? = some limit) :
    machine.step = ⟨.error (.stepLimitExceeded limit), machine, []⟩ := by
  unfold step
  rw [running, reached]

/-- A running machine below its limit goes through an instruction cycle. -/
theorem step_of_belowLimit {machine : Machine} (running : machine.status = .running)
    (belowLimit : machine.reachedLimit? = none) :
    machine.step = machine.cycle.reporting machine.traceEvents := by
  unfold step
  rw [running, belowLimit]

/-- A running machine that finds no instruction fails and stays as it is. -/
theorem step_of_undecoded {machine : Machine} {fault : Fault} (running : machine.status = .running)
    (belowLimit : machine.reachedLimit? = none) (undecoded : machine.decode = .error fault) :
    machine.step = ⟨.error fault, machine, machine.traceEvents⟩ := by
  have hcycle : machine.cycle = ⟨.error fault, machine, []⟩ := by
    unfold cycle
    unfold decode at undecoded
    cases hfetch : machine.fetch with
    | error cause =>
      rw [hfetch] at undecoded
      cases undecoded
      rfl
    | ok fetched =>
      rw [hfetch] at undecoded
      change (Opcode.ofByte fetched.opcode >>= _) = _ at undecoded
      cases hop : Opcode.ofByte fetched.opcode with
      | error cause =>
        rw [hop] at undecoded
        cases undecoded
        simp only [DispatchTable.lookup_new, hop, Except.map]
      | ok op =>
        rw [hop] at undecoded
        cases undecoded
  rw [step_of_belowLimit running belowLimit, hcycle, Turn.reporting_of_silent]

/-- A machine that has come to an instruction reports it and lets its execution do the work. -/
theorem Dispatches.step_eq {machine : Machine} {op : Opcode} {a b : UInt8}
    (h : machine.Dispatches op a b) :
    machine.step = (machine.perform op.execute ⟨op.byte, a, b⟩).reporting
      (machine.traceEvents ++ [.dispatched machine.counter op.byte a b]) := by
  have hlookup : DispatchTable.new.lookup op.byte = .ok op.execute := by
    rw [DispatchTable.lookup_new, Opcode.ofByte_eq_ok_iff.mpr rfl]
    rfl
  rw [step_of_belowLimit h.running h.belowLimit, cycle, decode_eq_ok_iff.mp h.decoded]
  simp only [hlookup, Turn.reporting_reporting]

/-- An instruction that fails leaves its sink and changes nothing else. -/
theorem Dispatches.step_of_refused {machine : Machine} {op : Opcode} {a b : UInt8}
    (h : machine.Dispatches op a b) {fault : Fault} {sink : Sink}
    (refused : op.execute machine.registers machine.sink a b =
      ⟨.error fault, machine.registers, sink⟩) :
    machine.step = ⟨.error fault, { machine with sink },
      machine.traceEvents ++ [.dispatched machine.counter op.byte a b]⟩ := by
  rw [h.step_eq, perform, refused]
  exact Turn.reporting_of_silent _ _ _

namespace Executes

variable {machine : Machine} {op : Opcode} {a b : UInt8} {registers : Registers}
  {request : Request} {sink : Sink}

/-- A machine that executes an instruction settles with the results. -/
theorem step_eq (h : machine.Executes op a b registers request sink) :
    machine.step = ((machine.withResults registers sink).settle op.fields request).reporting
      (machine.traceEvents ++ [.dispatched machine.counter op.byte a b]) := by
  rw [h.toDispatches.step_eq, perform, h.executed]
  rfl

/-- No instruction above address 253 is executed. -/
theorem counter_lt (h : machine.Executes op a b registers request sink) :
    machine.counter + 2 < memorySize := by
  have hb := (fetch_eq_ok_iff.mp (decode_eq_ok_iff.mp h.decoded)).2.2
  exact (Vector.getElem?_eq_some_iff.mp hb).1

/-- The stop instruction halts the machine where it is. -/
theorem step_of_halt (h : machine.Executes op a b registers request sink)
    (hrequest : request = .halt) :
    machine.step.answer = .ok .halted ∧
      machine.step.machine = (machine.withResults registers sink).halt := by
  rw [h.step_eq, hrequest, settle_of_halt]
  exact ⟨rfl, rfl⟩

/-- The guard halts the machine where it is. -/
theorem step_of_guarded (h : machine.Executes op a b registers request sink)
    (hrequest : request ≠ .halt) (hguarded : machine.Guarded) :
    machine.step.answer = .ok .halted ∧
      machine.step.machine = (machine.withResults registers sink).halt := by
  have hresults : (machine.withResults registers sink).Guarded := hguarded
  rw [h.step_eq, settle_of_guarded hrequest hresults]
  exact ⟨rfl, rfl⟩

/-- Otherwise the machine goes on as the instruction requests. -/
theorem step_of_proceed (h : machine.Executes op a b registers request sink)
    (hrequest : request ≠ .halt) (hguarded : ¬machine.Guarded) :
    machine.step.answer = .ok .running ∧
      machine.step.machine = (machine.withResults registers sink).proceed op.fields request := by
  have hresults : ¬(machine.withResults registers sink).Guarded := hguarded
  rw [h.step_eq, settle_of_proceed hrequest hresults]
  exact ⟨rfl, rfl⟩

/-- A machine that executes an instruction halts where it is, or goes on as the instruction
requests. -/
theorem step_cases (h : machine.Executes op a b registers request sink) :
    (machine.step.answer = .ok .halted ∧
        machine.step.machine = (machine.withResults registers sink).halt) ∨
      (request ≠ .halt ∧ ¬machine.Guarded ∧ machine.step.answer = .ok .running ∧
        machine.step.machine = (machine.withResults registers sink).proceed op.fields request) := by
  by_cases hrequest : request = .halt
  · exact Or.inl (h.step_of_halt hrequest)
  · by_cases hguarded : machine.Guarded
    · exact Or.inl (h.step_of_guarded hrequest hguarded)
    · exact Or.inr ⟨hrequest, hguarded, h.step_of_proceed hrequest hguarded⟩

/-- A machine that executes an instruction does not fail. -/
theorem step_ok (h : machine.Executes op a b registers request sink) :
    ∃ status, machine.step.answer = .ok status := by
  rcases h.step_cases with ⟨hanswer, -⟩ | ⟨-, -, hanswer, -⟩
  · exact ⟨.halted, hanswer⟩
  · exact ⟨.running, hanswer⟩

end Executes

/-- A step executes an instruction, or changes nothing but the sink; it then fails, unless the
machine is halted. -/
theorem step_idle_or_executes (machine : Machine) :
    (∃ sink, machine.sink.Follows sink ∧ machine.step.machine = { machine with sink } ∧
        (machine.status = .running → ∃ fault, machine.step.answer = .error fault)) ∨
      ∃ op a b registers request sink, machine.Executes op a b registers request sink := by
  cases machine.stage with
  | halted hhalted =>
    refine Or.inl ⟨machine.sink, Or.inl rfl, by rw [step_halted hhalted], fun hrunning => ?_⟩
    rw [hrunning] at hhalted
    cases hhalted
  | limited hrunning hlimit =>
    rw [step_of_reachedLimit hrunning hlimit]
    exact Or.inl ⟨machine.sink, Or.inl rfl, rfl, fun _ => ⟨_, rfl⟩⟩
  | undecoded hrunning hlimit hdecode =>
    rw [step_of_undecoded hrunning hlimit hdecode]
    exact Or.inl ⟨machine.sink, Or.inl rfl, rfl, fun _ => ⟨_, rfl⟩⟩
  | @refused op a b _ sink hdispatches hrefused =>
    have hfollows := op.execute_follows machine.registers machine.sink a b
    rw [hrefused] at hfollows
    rw [hdispatches.step_of_refused hrefused]
    exact Or.inl ⟨sink, hfollows, rfl, fun _ => ⟨_, rfl⟩⟩
  | executes hexecutes => exact Or.inr ⟨_, _, _, _, _, _, hexecutes⟩

/-- A running machine that answers without a fault has executed an instruction. -/
theorem exists_executes {machine : Machine} {status : Status} (running : machine.status = .running)
    (h : machine.step.answer = .ok status) :
    ∃ op a b registers request sink, machine.Executes op a b registers request sink := by
  rcases machine.step_idle_or_executes with ⟨sink, -, -, hfails⟩ | hexecutes
  · obtain ⟨fault, hfault⟩ := hfails running
    rw [h] at hfault
    cases hfault
  · exact hexecutes

/-- A machine that answers that it goes on was running. -/
theorem running_of_step {machine : Machine} (h : machine.step.answer = .ok .running) :
    machine.status = .running := by
  cases hstatus : machine.status with
  | running => rfl
  | halted =>
    rw [step_halted hstatus] at h
    cases h

/-- A step after which the machine goes on has executed an instruction that neither stops the
machine nor is stopped by the guard. -/
theorem exists_executes_of_running {machine : Machine} (h : machine.step.answer = .ok .running) :
    ∃ op a b registers request sink, machine.Executes op a b registers request sink ∧
      request ≠ .halt ∧ ¬machine.Guarded ∧
        machine.step.machine = (machine.withResults registers sink).proceed op.fields request := by
  obtain ⟨op, a, b, registers, request, sink, hexecutes⟩ := exists_executes (running_of_step h) h
  rcases hexecutes.step_cases with ⟨hanswer, -⟩ | ⟨hrequest, hguarded, -, hmachine⟩
  · rw [h] at hanswer
    cases hanswer
  · exact ⟨op, a, b, registers, request, sink, hexecutes, hrequest, hguarded, hmachine⟩

/-- What a step can fail for: its limit, the search for an instruction, or the instruction. -/
inductive Fails (machine : Machine) : Fault → Prop where
  | limited {limit : Nat} (running : machine.status = .running)
      (reached : machine.reachedLimit? = some limit) : Fails machine (.stepLimitExceeded limit)
  | undecoded {fault : Fault} (running : machine.status = .running)
      (belowLimit : machine.reachedLimit? = none) (undecoded : machine.decode = .error fault) :
      Fails machine fault
  | refused {op : Opcode} {a b : UInt8} {fault : Fault} {sink : Sink}
      (dispatches : machine.Dispatches op a b)
      (refused : op.execute machine.registers machine.sink a b =
        ⟨.error fault, machine.registers, sink⟩) :
      Fails machine fault

/-- A step that ends in a fault fails for one of these reasons. -/
theorem fails_of_step {machine : Machine} {fault : Fault}
    (h : machine.step.answer = .error fault) : machine.Fails fault := by
  cases machine.stage with
  | halted hhalted =>
    rw [step_halted hhalted] at h
    cases h
  | limited hrunning hlimit =>
    rw [step_of_reachedLimit hrunning hlimit] at h
    cases h
    exact .limited hrunning hlimit
  | undecoded hrunning hlimit hdecode =>
    rw [step_of_undecoded hrunning hlimit hdecode] at h
    cases h
    exact .undecoded hrunning hlimit hdecode
  | refused hdispatches hrefused =>
    rw [hdispatches.step_of_refused hrefused] at h
    cases h
    exact .refused hdispatches hrefused
  | executes hexecutes =>
    obtain ⟨status, hstatus⟩ := hexecutes.step_ok
    rw [h] at hstatus
    cases hstatus

/-- A step reports a limit as exceeded only when the machine is running and has reached the limit
that is set; it then leaves the machine as it was. -/
theorem reached_of_stepLimitExceeded {machine : Machine} {limit : Nat}
    (h : machine.step.answer = .error (.stepLimitExceeded limit)) :
    machine.config.stepLimit = some limit ∧ limit ≤ machine.steps ∧
      machine.status = .running ∧ machine.step.machine = machine := by
  cases fails_of_step h with
  | limited hrunning hlimit =>
    obtain ⟨hset, hreached⟩ := Option.filter_eq_some_iff.mp hlimit
    refine ⟨hset, of_decide_eq_true hreached, hrunning, ?_⟩
    rw [step_of_reachedLimit hrunning hlimit]
  | undecoded hrunning hbelow hdecode =>
    rcases decode_fault hdecode with ⟨-, hfault⟩ | ⟨-, hfault⟩
    · cases hfault
    · cases hfault
  | refused hdispatches hrefused =>
    obtain ⟨⟨number, hfault⟩ | ⟨-, hfault⟩, -⟩ := Opcode.of_execute_eq_error hrefused
    · cases hfault
    · cases hfault

/-- A step that ends in a fault leaves everything but the sink as it was. -/
theorem step_of_fault {machine : Machine} {fault : Fault} (h : machine.step.answer = .error fault) :
    ∃ sink, machine.sink.Follows sink ∧ machine.step.machine = { machine with sink } := by
  rcases machine.step_idle_or_executes with ⟨sink, hfollows, hmachine, -⟩ |
    ⟨op, a, b, registers, request, sink, hexecutes⟩
  · exact ⟨sink, hfollows, hmachine⟩
  · obtain ⟨status, hstatus⟩ := hexecutes.step_ok
    rw [h] at hstatus
    cases hstatus

/-- Machines with the same counter and the same origins go on in the same way, and this concerns
their counters and their origins only. -/
theorem proceed_congr {first second : Machine} (hcounter : second.counter = first.counter)
    (horigins : second.origins = first.origins) (fields : Fields) (request : Request) :
    ∃ counter origins, first.proceed fields request = { first with counter, origins } ∧
      second.proceed fields request = { second with counter, origins } := by
  have hadvance : second.advance fields =
      { second with
        counter := first.counter + fields.increment
        origins := first.origins } := by
    simp only [advance, hcounter, ← horigins]
  have hjump (target : UInt8) : second.jump target =
      { second with
        counter := target.toNat
        origins := first.origins.insert first.counter } := by
    simp only [jump, hcounter, horigins]
  cases request with
  | advance => exact ⟨_, _, rfl, hadvance⟩
  | halt => exact ⟨_, _, rfl, hadvance⟩
  | jump target =>
    by_cases hsets : fields.setsCounter = true
    · simp only [proceed, if_pos hsets]
      exact ⟨_, _, rfl, hjump target⟩
    · simp only [proceed, if_neg hsets]
      exact ⟨_, _, rfl, hadvance⟩

/-- Where the machine goes on concerns its counter and its origins only. -/
theorem proceed_frame (machine : Machine) (fields : Fields) (request : Request) :
    ∃ counter origins,
      machine.proceed fields request = { machine with counter, origins } := by
  have hcounter : machine.counter = machine.counter := rfl
  obtain ⟨counter, origins, h, -⟩ := proceed_congr hcounter rfl fields request
  exact ⟨counter, origins, h⟩

/-- An instruction that does not stop the machine leads behind itself, or is a jump that is taken;
a jump changes neither registers nor sink. -/
theorem Executes.proceed_cases {machine : Machine} {op : Opcode} {a b : UInt8}
    {registers : Registers} {request : Request} {sink : Sink}
    (h : machine.Executes op a b registers request sink) (hrequest : request ≠ .halt) :
    (op ≠ .hlt ∧ (machine.withResults registers sink).proceed op.fields request =
        (machine.withResults registers sink).advance op.fields) ∨
      ∃ target, op.IsJump ∧ machine.registers.read a = .ok target ∧
        registers = machine.registers ∧ sink = machine.sink ∧
          (machine.withResults registers sink).proceed op.fields request =
            (machine.withResults registers sink).jump target := by
  obtain ⟨-, rfl, -⟩ | ⟨hop, rfl⟩ | ⟨target, hop, hread, rfl, rfl, rfl⟩ :=
    Opcode.execute_cases h.executed
  · exact absurd rfl hrequest
  · exact Or.inl ⟨hop, rfl⟩
  · have hsets : op.fields.setsCounter = true := op.setsCounter_fields.mpr hop
    exact Or.inr ⟨target, hop, hread, rfl, rfl, if_pos hsets⟩

/-- No step touches the configuration, the memory or the stack pointer, and none writes more than
one line. -/
theorem step_frame (machine : Machine) :
    machine.step.machine.config = machine.config ∧
      machine.step.machine.memory = machine.memory ∧
        machine.step.machine.stackPointer = machine.stackPointer ∧
          machine.sink.Follows machine.step.machine.sink := by
  rcases machine.step_idle_or_executes with ⟨sink, hfollows, hmachine, -⟩ |
    ⟨op, a, b, registers, request, sink, h⟩
  · rw [hmachine]
    exact ⟨rfl, rfl, rfl, hfollows⟩
  · have hfollows := op.execute_follows machine.registers machine.sink a b
    rw [h.executed] at hfollows
    rcases h.step_cases with ⟨-, hmachine⟩ | ⟨-, -, -, hmachine⟩
    · rw [hmachine]
      exact ⟨rfl, rfl, rfl, hfollows⟩
    · obtain ⟨counter, origins, hproceed⟩ :=
        (machine.withResults registers sink).proceed_frame op.fields request
      rw [hmachine, hproceed]
      exact ⟨rfl, rfl, rfl, hfollows⟩

/-- A step after which the machine goes on moves the counter up by two or three, or takes a jump:
from an address that the guard does not hold, to an address in memory, and it is remembered. -/
theorem step_moves {machine : Machine} (h : machine.step.answer = .ok .running) :
    (machine.step.machine.origins = machine.origins ∧
        machine.counter + 2 ≤ machine.step.machine.counter ∧
          machine.step.machine.counter ≤ machine.counter + 3) ∨
      (machine.step.machine.origins = machine.origins.insert machine.counter ∧
        machine.step.machine.counter < memorySize ∧ ¬machine.Guarded) := by
  obtain ⟨op, a, b, registers, request, sink, hexecutes, hrequest, hguarded, hmachine⟩ :=
    exists_executes_of_running h
  rcases hexecutes.proceed_cases hrequest with ⟨hop, hadvance⟩ | ⟨target, -, -, -, -, hjump⟩
  · left
    rw [hmachine, hadvance]
    have hlow := Opcode.two_le_increment_fields hop
    have hhigh := op.increment_fields_le
    refine ⟨rfl, ?_, ?_⟩
    · change machine.counter + 2 ≤ machine.counter + op.fields.increment
      omega
    · change machine.counter + op.fields.increment ≤ machine.counter + 3
      omega
  · right
    rw [hmachine, hjump]
    exact ⟨rfl, target.toNat_lt, hguarded⟩

/-- A running machine that answers without a fault has counted one instruction, which it executed
below address 254, and has the status that it answers. -/
theorem step_counts {machine : Machine} {status : Status} (running : machine.status = .running)
    (h : machine.step.answer = .ok status) :
    machine.counter + 2 < memorySize ∧ machine.step.machine.status = status ∧
      machine.step.machine.steps = machine.steps + 1 := by
  obtain ⟨op, a, b, registers, request, sink, hexecutes⟩ := exists_executes running h
  refine ⟨hexecutes.counter_lt, ?_⟩
  rcases hexecutes.step_cases with ⟨hanswer, hmachine⟩ | ⟨-, -, hanswer, hmachine⟩
  · rw [h] at hanswer
    cases hanswer
    rw [hmachine]
    exact ⟨rfl, rfl⟩
  · obtain ⟨counter, origins, hproceed⟩ :=
      (machine.withResults registers sink).proceed_frame op.fields request
    rw [h] at hanswer
    cases hanswer
    rw [hmachine, hproceed]
    exact ⟨running, rfl⟩

/-- A machine that goes on was running, below address 254, and counts one instruction. -/
theorem step_counts_of_running {machine : Machine} (h : machine.step.answer = .ok .running) :
    machine.counter + 2 < memorySize ∧ machine.step.machine.status = .running ∧
      machine.step.machine.steps = machine.steps + 1 :=
  step_counts (running_of_step h) h

/-- The configuration outlasts every step. -/
@[simp] theorem step_config (machine : Machine) :
    machine.step.machine.config = machine.config := machine.step_frame.1

/-- No step writes to the memory. -/
@[simp] theorem step_memory (machine : Machine) :
    machine.step.machine.memory = machine.memory := machine.step_frame.2.1

/-- No step writes more than one line. -/
theorem step_follows (machine : Machine) : machine.sink.Follows machine.step.machine.sink :=
  machine.step_frame.2.2.2

end Machine

end ByteMachine
