import ByteMachine.Proofs.Execution.Configure
import ByteMachine.Proofs.Execution.Effects
import ByteMachine.Proofs.Output.FailedStep

/-!
# What a run reports

A step reports at most three things, in this order: its trace line, the instruction that it has come
to, and why it halts. Each of them can be told from the machine before the step (`step_events`). A
run reports what its steps report, one behind the other. All of its steps but the last go on, and
these report an instruction each and close nothing; so only the last step has to be looked at.
-/

namespace ByteMachine

namespace Event

/-- Whether an event reports an instruction that is about to be executed. -/
def isDispatch : Event → Bool
  | .dispatched .. => true
  | _ => false

/-- The instructions that events report, in their order. -/
def dispatches (events : List Event) : List Event :=
  events.filter isDispatch

/-- Events behind each other report the instructions of both. -/
theorem dispatches_append (earlier later : List Event) :
    dispatches (earlier ++ later) = dispatches earlier ++ dispatches later :=
  List.filter_append ..

end Event

/-- Whether a fault is one of an instruction: a register does not exist, or the sink refuses a
line. -/
def Fault.OfInstruction (fault : Fault) : Prop :=
  (∃ number, fault = .outOfRange .register number) ∨ ∃ refusal, fault = .output refusal

namespace Machine

/-- What the next step reports of its instruction: the machine is running below its limit, the three
bytes at the counter are in memory, and the first of them is an instruction. -/
def dispatch? (machine : Machine) : Option Event :=
  if machine.status = .running ∧ machine.reachedLimit? = none then do
    let opcode ← machine.memory[machine.counter]?
    let a ← machine.memory[machine.counter + 1]?
    let b ← machine.memory[machine.counter + 2]?
    let _ ← Opcode.ofByte? opcode
    return .dispatched machine.counter opcode a b
  else none

/-- What the next step reports if it halts a running machine: the stop instruction, or else that the
machine has come back to an origin. -/
def closing? (machine : Machine) : Option Event :=
  match machine.status, machine.step.answer with
  | .running, .ok .halted =>
    some (if machine.instruction? = some .hlt then .halted machine.counter (machine.steps + 1)
      else .revisited machine.counter)
  | _, _ => none

variable {machine : Machine} {event : Event} {op : Opcode} {a b : UInt8} {registers : Registers}
  {request : Request} {sink : Sink}

/-- An instruction is reported exactly when the machine has come to one. -/
theorem dispatch?_eq_some_iff :
    machine.dispatch? = some event ↔
      ∃ op a b, machine.Dispatches op a b ∧
        event = .dispatched machine.counter op.byte a b := by
  simp only [dispatch?, Option.ite_none_right_eq_some, Option.bind_eq_bind,
    Option.bind_eq_some_iff, Option.pure_def, Option.some.injEq]
  constructor
  · rintro ⟨⟨hrunning, hbelow⟩, opcode, hopcode, a, ha, b, hb, op, hop, rfl⟩
    obtain rfl := Opcode.ofByte?_eq_some_iff.mp hop
    have hfetch : machine.fetch = .ok ⟨op.byte, a, b⟩ := fetch_eq_ok_iff.mpr ⟨hopcode, ha, hb⟩
    exact ⟨op, a, b, ⟨hrunning, hbelow, decode_eq_ok_iff.mpr hfetch⟩, rfl⟩
  · rintro ⟨op, a, b, h, rfl⟩
    obtain ⟨hopcode, ha, hb⟩ := fetch_eq_ok_iff.mp (decode_eq_ok_iff.mp h.decoded)
    exact ⟨⟨h.running, h.belowLimit⟩, op.byte, hopcode, a, ha, b, hb, op,
      Opcode.ofByte?_byte op, rfl⟩

/-- No instruction is reported by a machine that has not come to one. -/
theorem dispatch?_eq_none (h : ∀ op a b, ¬machine.Dispatches op a b) :
    machine.dispatch? = none := by
  rw [Option.eq_none_iff_forall_ne_some]
  intro event hevent
  obtain ⟨op, a, b, hdispatches, -⟩ := dispatch?_eq_some_iff.mp hevent
  exact h op a b hdispatches

/-- At the step limit no instruction is reported. -/
theorem dispatch?_of_reachedLimit {limit : Nat} (reached : machine.reachedLimit? = some limit) :
    machine.dispatch? = none := by
  refine dispatch?_eq_none fun op a b h => ?_
  rw [h.belowLimit] at reached
  cases reached

/-- Where no instruction is found, none is reported. -/
theorem dispatch?_of_undecoded {fault : Fault} (undecoded : machine.decode = .error fault) :
    machine.dispatch? = none := by
  refine dispatch?_eq_none fun op a b h => ?_
  rw [h.decoded] at undecoded
  cases undecoded

/-- The instruction that a machine has come to is reported. -/
theorem Dispatches.dispatch?_eq (h : machine.Dispatches op a b) :
    machine.dispatch? = some (.dispatched machine.counter op.byte a b) :=
  dispatch?_eq_some_iff.mpr ⟨op, a, b, h, rfl⟩

/-- A step that does not halt the machine does not say why it does. -/
theorem closing?_eq_none (h : machine.step.answer ≠ .ok .halted) : machine.closing? = none := by
  unfold closing?
  split
  · contradiction
  · rfl

/-- The stop instruction is reported as such, also at an origin. -/
theorem Executes.closing?_eq (h : machine.Executes op a b registers request sink)
    (hanswer : machine.step.answer = .ok .halted) :
    machine.closing? = some (if request = .halt then .halted machine.counter (machine.steps + 1)
      else .revisited machine.counter) := by
  have hhlt : machine.instruction? = some .hlt ↔ request = .halt := by
    rw [h.toDispatches.instruction?_eq, Option.some.injEq, Opcode.instruction_eq_hlt_iff,
      Opcode.request_eq_halt_iff h.executed]
  simp only [closing?, h.running, hanswer, hhlt]

/-- A machine that has executed an instruction settles with nothing to report but why it halts. -/
theorem Executes.settle_events (h : machine.Executes op a b registers request sink) :
    ((machine.withResults registers sink).settle op.fields request).events =
      machine.closing?.toList := by
  by_cases hrequest : request = .halt
  · rw [h.closing?_eq (h.step_of_halt hrequest).1, if_pos hrequest, hrequest, settle_of_halt]
    rfl
  · by_cases hguarded : machine.Guarded
    · have hresults : (machine.withResults registers sink).Guarded := hguarded
      rw [h.closing?_eq (h.step_of_guarded hrequest hguarded).1, if_neg hrequest,
        settle_of_guarded hrequest hresults]
      rfl
    · have hresults : ¬(machine.withResults registers sink).Guarded := hguarded
      have hrunning := (h.step_of_proceed hrequest hguarded).1
      rw [closing?_eq_none (by simp [hrunning]), settle_of_proceed hrequest hresults]
      rfl

/-- What a step reports can be told from the machine before it. -/
theorem step_events (machine : Machine) :
    machine.step.events =
      machine.announced ++ machine.dispatch?.toList ++ machine.closing?.toList := by
  cases machine.stage with
  | halted hhalted =>
    have hnone : machine.dispatch? = none := dispatch?_eq_none fun op a b h => by
      rw [h.running] at hhalted
      cases hhalted
    have hopen : machine.closing? = none := by simp [closing?, hhalted]
    rw [step_halted hhalted, announced_of_halted hhalted, hnone, hopen]
    rfl
  | limited hrunning hreached =>
    have hstep := step_of_reachedLimit hrunning hreached
    have hopen : machine.closing? = none := closing?_eq_none (by simp [hstep])
    rw [hstep, announced_of_reachedLimit hreached, dispatch?_of_reachedLimit hreached, hopen]
    rfl
  | undecoded hrunning hbelow hdecode =>
    have hstep := step_of_undecoded hrunning hbelow hdecode
    have hopen : machine.closing? = none := closing?_eq_none (by simp [hstep])
    rw [hstep, announced_of_belowLimit hrunning hbelow, dispatch?_of_undecoded hdecode, hopen]
    simp
  | refused hdispatches hrefused =>
    have hstep := hdispatches.step_of_refused hrefused
    have hopen : machine.closing? = none := closing?_eq_none (by simp [hstep])
    rw [hstep, announced_of_belowLimit hdispatches.running hdispatches.belowLimit,
      hdispatches.dispatch?_eq, hopen]
    simp
  | @executes op a b registers request sink h =>
    rw [h.step_eq, Turn.events_reporting, h.settle_events,
      announced_of_belowLimit h.running h.belowLimit, h.dispatch?_eq]
    rfl

/-- What is reported before an instruction is the trace line. -/
theorem eq_traced_of_mem_announced (h : event ∈ machine.announced) :
    event = .traced machine.traceLine := by
  unfold announced traceEvents at h
  split at h
  · split at h
    · exact List.mem_singleton.mp h
    · cases h
  · cases h

/-- What is reported of an instruction is that it is about to be executed. -/
theorem isDispatch_of_dispatch? (h : machine.dispatch? = some event) :
    event.isDispatch = true ∧ event.isClosing = false := by
  obtain ⟨op, a, b, -, rfl⟩ := dispatch?_eq_some_iff.mp h
  exact ⟨rfl, rfl⟩

/-- What is reported last closes a run. -/
theorem isClosing_of_closing? (h : machine.closing? = some event) :
    event.isDispatch = false ∧ event.isClosing = true := by
  unfold closing? at h
  split at h
  · obtain rfl := Option.some.inj h
    split
    · exact ⟨rfl, rfl⟩
    · exact ⟨rfl, rfl⟩
  · cases h

/-- A step reports one instruction at most. -/
theorem dispatches_step (machine : Machine) :
    Event.dispatches machine.step.events = machine.dispatch?.toList := by
  have hannounced : Event.dispatches machine.announced = [] := by
    refine List.filter_eq_nil_iff.mpr fun event hmem => ?_
    rw [eq_traced_of_mem_announced hmem]
    exact Bool.false_ne_true
  have hdispatch : Event.dispatches machine.dispatch?.toList = machine.dispatch?.toList := by
    refine List.filter_eq_self.mpr fun event hmem => ?_
    exact (isDispatch_of_dispatch? (Option.mem_toList.mp hmem)).1
  have hclosing : Event.dispatches machine.closing?.toList = [] := by
    refine List.filter_eq_nil_iff.mpr fun event hmem => ?_
    rw [(isClosing_of_closing? (Option.mem_toList.mp hmem)).1]
    exact Bool.false_ne_true
  rw [step_events, Event.dispatches_append, Event.dispatches_append, hannounced, hdispatch,
    hclosing, List.nil_append, List.append_nil]

/-- A row of steps reports the instructions that each of its machines has come to. -/
theorem dispatches_reported (machine : Machine) (calls : Nat) :
    Event.dispatches (machine.reported calls) =
      (List.range calls).filterMap fun earlier => (machine.stepped earlier).dispatch? := by
  induction calls with
  | zero => rfl
  | succ calls ih =>
    rw [reported_succ, Event.dispatches_append, ih, dispatches_step, List.range_succ,
      List.filterMap_append]
    rfl

/-- A step that succeeds reports its instruction. -/
theorem exists_dispatch?_of_ok {status : Status} (running : machine.status = .running)
    (h : machine.step.answer = .ok status) : ∃ event, machine.dispatch? = some event := by
  obtain ⟨op, a, b, registers, request, sink, hexecutes⟩ := exists_executes running h
  exact ⟨_, hexecutes.toDispatches.dispatch?_eq⟩

/-- A step that fails reports its instruction if this is what fails, and only then. -/
theorem dispatch?_of_fault {fault : Fault} (h : machine.step.answer = .error fault) :
    (fault.OfInstruction ∧ ∃ event, machine.dispatch? = some event) ∨
      (¬fault.OfInstruction ∧ machine.dispatch? = none) := by
  cases fails_of_step h with
  | limited hrunning hreached =>
    exact Or.inr ⟨by simp [Fault.OfInstruction], dispatch?_of_reachedLimit hreached⟩
  | undecoded hrunning hbelow hdecode =>
    refine Or.inr ⟨?_, dispatch?_of_undecoded hdecode⟩
    rcases decode_fault hdecode with ⟨-, rfl⟩ | ⟨-, rfl⟩
    · simp [Fault.OfInstruction]
    · simp [Fault.OfInstruction]
  | refused hdispatches hrefused =>
    refine Or.inl ⟨?_, _, hdispatches.dispatch?_eq⟩
    obtain ⟨hnumber | ⟨-, hrefusal⟩, -⟩ := Opcode.of_execute_eq_error hrefused
    · exact Or.inl hnumber
    · exact Or.inr ⟨_, hrefusal⟩

/-- A row of steps that all go on reports as many instructions. -/
theorem GoesOn.length_dispatches {calls : Nat} (h : machine.GoesOn calls) :
    (Event.dispatches (machine.reported calls)).length = calls := by
  induction calls with
  | zero => rfl
  | succ calls ih =>
    have hanswer := h calls (Nat.lt_succ_self calls)
    obtain ⟨event, hevent⟩ := exists_dispatch?_of_ok (running_of_step hanswer) hanswer
    rw [reported_succ, Event.dispatches_append, List.length_append, dispatches_step, hevent,
      ih (h.mono (Nat.le_succ calls))]
    rfl

/-- A run that succeeds halts with its last step. -/
theorem EndsAt.halts_of_ok {last : Nat} (h : machine.EndsAt last)
    (hok : (machine.ending last).answer = .ok ()) :
    (machine.stepped last).step.answer = .ok .halted := by
  have hstops := h.stops
  unfold ending at hok
  cases hanswer : (machine.stepped last).step.answer with
  | error fault =>
    rw [hanswer] at hok
    cases hok
  | ok status =>
    cases status with
    | running => exact absurd hanswer hstops
    | halted => rfl

/-- A run reports the instructions that it has counted, and one more if this one failed. -/
theorem EndsAt.length_dispatches {last : Nat} (h : machine.EndsAt last)
    (running : machine.status = .running) :
    (∀ fault, (machine.ending last).answer = .error fault → fault.OfInstruction →
        machine.steps + (Event.dispatches (machine.ending last).events).length =
          (machine.ending last).machine.steps + 1) ∧
      ((∀ fault, (machine.ending last).answer = .error fault → ¬fault.OfInstruction) →
        machine.steps + (Event.dispatches (machine.ending last).events).length =
          (machine.ending last).machine.steps) := by
  have hlength : (Event.dispatches (machine.ending last).events).length =
      last + (machine.stepped last).dispatch?.toList.length := by
    change (Event.dispatches (machine.reported (last + 1))).length = _
    rw [reported_succ, Event.dispatches_append, List.length_append, h.goesOn.length_dispatches,
      dispatches_step]
  rcases h.steps_ending running with ⟨hsteps, fault, hfault⟩ | ⟨hsteps, hok, -⟩
  · rcases dispatch?_of_fault (ending_eq_error_iff.mp hfault) with
      ⟨hof, event, hevent⟩ | ⟨hof, hnone⟩
    · rw [hevent, Option.toList_some, List.length_singleton] at hlength
      refine ⟨fun _ _ _ => by omega, fun hother => absurd hof (hother fault hfault)⟩
    · rw [hnone, Option.toList_none, List.length_nil] at hlength
      refine ⟨fun other hanswer hother => ?_, fun _ => by omega⟩
      rw [hfault] at hanswer
      cases hanswer
      exact absurd hother hof
  · have hrunning := (h.goesOn.counts running).1
    obtain ⟨event, hevent⟩ := exists_dispatch?_of_ok hrunning (h.halts_of_ok hok)
    rw [hevent, Option.toList_some, List.length_singleton] at hlength
    refine ⟨fun fault hfault => ?_, fun _ => by omega⟩
    rw [hok] at hfault
    cases hfault

/-- The events of a run are those that close no run, and then the one that closes it. -/
theorem EndsAt.exists_front {last : Nat} (h : machine.EndsAt last) :
    ∃ front, (∀ event ∈ front, event.isClosing = false) ∧
      (machine.ending last).events = front ++ (machine.stepped last).closing?.toList := by
  have hopen (other : Machine) :
      ∀ event ∈ other.announced ++ other.dispatch?.toList, event.isClosing = false := by
    intro event hmem
    rcases List.mem_append.mp hmem with hannounced | hdispatch
    · rw [eq_traced_of_mem_announced hannounced]
      rfl
    · exact (isDispatch_of_dispatch? (Option.mem_toList.mp hdispatch)).2
  refine ⟨machine.reported last ++
    ((machine.stepped last).announced ++ (machine.stepped last).dispatch?.toList), ?_, ?_⟩
  · intro event hmem
    rcases List.mem_append.mp hmem with hbefore | hlast
    · obtain ⟨earlier, hlt, hevent⟩ := List.mem_flatMap.mp hbefore
      have hrunning := h.goesOn earlier (List.mem_range.mp hlt)
      rw [step_events, closing?_eq_none (by simp [hrunning]), Option.toList_none,
        List.append_nil] at hevent
      exact hopen _ event hevent
    · exact hopen _ event hlast
  · change machine.reported (last + 1) = _
    rw [reported_succ, step_events, List.append_assoc (machine.reported last)]

/-- A machine that has just halted reports where it is and what it has counted. -/
theorem closing?_of_halted (running : machine.status = .running)
    (h : machine.step.answer = .ok .halted) :
    machine.closing? = some (if machine.instruction? = some .hlt then
      .halted machine.step.machine.counter machine.step.machine.steps
      else .revisited machine.step.machine.counter) := by
  obtain ⟨op, a, b, registers, request, sink, hexecutes⟩ := exists_executes running h
  rcases hexecutes.step_cases with ⟨-, hmachine⟩ | ⟨-, -, hanswer, -⟩
  · rw [hmachine]
    simp only [closing?, running, h]
    rfl
  · rw [h] at hanswer
    cases hanswer

/-- What stands in front of an event of a row of steps are the events of the steps before and those
of the same step. -/
theorem reported_eq_append_cons {calls : Nat} {earlier later : List Event}
    (h : machine.reported calls = earlier ++ event :: later) :
    ∃ place < calls, ∃ front back, earlier = machine.reported place ++ front ∧
      (machine.stepped place).step.events = front ++ event :: back := by
  induction calls generalizing later with
  | zero => simp [reported] at h
  | succ calls ih =>
    rw [reported_succ] at h
    rcases List.append_eq_append_iff.mp h with ⟨front, rfl, hstep⟩ | ⟨rest, hbefore, hrest⟩
    · exact ⟨calls, Nat.lt_succ_self calls, front, later, rfl, hstep⟩
    · cases rest with
      | nil =>
        rw [List.append_nil] at hbefore
        exact ⟨calls, Nat.lt_succ_self calls, [], later, by rw [hbefore, List.append_nil],
          hrest.symm⟩
      | cons first rest =>
        obtain ⟨rfl, -⟩ := List.cons.inj hrest
        obtain ⟨place, hlt, found⟩ := ih hbefore
        exact ⟨place, Nat.lt_succ_of_lt hlt, found⟩

/-- In front of the instruction of a traced step stands its trace line. -/
theorem front_of_isDispatch (htracing : machine.config.tracing = true) {front back : List Event}
    (h : machine.step.events = front ++ event :: back) (hdispatch : event.isDispatch = true) :
    machine.dispatch? = some event ∧ front = [.traced machine.traceLine] := by
  have hevent : machine.dispatch? = some event := by
    rw [← Option.mem_toList, ← dispatches_step, Event.dispatches, h]
    exact List.mem_filter.mpr ⟨by simp, hdispatch⟩
  obtain ⟨op, a, b, hdispatches, -⟩ := dispatch?_eq_some_iff.mp hevent
  have hannounced : machine.announced = [.traced machine.traceLine] := by
    rw [announced_of_belowLimit hdispatches.running hdispatches.belowLimit, traceEvents,
      if_pos htracing]
  rw [step_events, hannounced, hevent] at h
  refine ⟨hevent, ?_⟩
  cases front with
  | nil =>
    obtain ⟨rfl, -⟩ := List.cons.inj h
    cases hdispatch
  | cons line front =>
    obtain ⟨rfl, hrest⟩ := List.cons.inj h
    cases front with
    | nil => rfl
    | cons second front =>
      -- The instruction is already there, so a second one would close the run.
      have hclosing : machine.closing?.toList = front ++ event :: back := (List.cons.inj hrest).2
      have hmem : event ∈ machine.closing?.toList := by simp [hclosing]
      rw [(isClosing_of_closing? (Option.mem_toList.mp hmem)).1] at hdispatch
      cases hdispatch

/-- The dispatches of a run are those of its instructions, in order. A run is closed by its last
event and no other if it succeeds, and not at all if it fails. If the machine traces, each dispatch
stands directly behind the trace line of its step. -/
theorem run_accounts_for_instructions {machine : Machine} (running : machine.status = .running)
    {turn : Turn Unit} (hrun : machine.run = some turn) :
    ∃ last, machine.EndsAt last ∧ turn = machine.ending last ∧
      Event.dispatches turn.events =
        (List.range (last + 1)).filterMap (fun calls => (machine.stepped calls).dispatch?) ∧
      (∀ fault, turn.answer = .error fault → fault.OfInstruction →
        machine.steps + (Event.dispatches turn.events).length = turn.machine.steps + 1) ∧
      ((∀ fault, turn.answer = .error fault → ¬fault.OfInstruction) →
        machine.steps + (Event.dispatches turn.events).length = turn.machine.steps) ∧
      (turn.answer = .ok () →
        ∃ front, (∀ event ∈ front, event.isClosing = false) ∧
          turn.events = front ++
            [if (machine.stepped last).instruction? = some .hlt then
              .halted turn.machine.counter turn.machine.steps
            else .revisited turn.machine.counter]) ∧
      (∀ fault, turn.answer = .error fault →
        ∀ event ∈ turn.events, event.isClosing = false) ∧
      (machine.config.tracing = true →
        ∀ earlier event later, turn.events = earlier ++ event :: later →
          event.isDispatch = true →
          ∃ calls ≤ last, (machine.stepped calls).dispatch? = some event ∧
            earlier = machine.reported calls ++ [.traced (machine.stepped calls).traceLine]) := by
  obtain ⟨last, hends, rfl⟩ := run_eq_some_iff.mp hrun
  obtain ⟨hrefused, hcounted⟩ := hends.length_dispatches running
  obtain ⟨front, hfront, hevents⟩ := hends.exists_front
  refine ⟨last, hends, rfl, machine.dispatches_reported (last + 1), hrefused, hcounted,
    fun hok => ⟨front, hfront, ?_⟩, fun fault hfault => ?_, fun htracing earlier event later h
      hdispatch => ?_⟩
  · rw [hevents, closing?_of_halted (hends.goesOn.counts running).1 (hends.halts_of_ok hok),
      ← stepped_succ]
    rfl
  · rw [hevents, closing?_eq_none (by simp [ending_eq_error_iff.mp hfault]), Option.toList_none,
      List.append_nil]
    exact hfront
  · obtain ⟨calls, hlt, behind, back, rfl, hstep⟩ := reported_eq_append_cons h
    have hconfig : (machine.stepped calls).config.tracing = true := by rw [stepped_config, htracing]
    obtain ⟨hevent, rfl⟩ := front_of_isDispatch hconfig hstep hdispatch
    exact ⟨calls, Nat.le_of_lt_succ hlt, hevent, rfl⟩

/-- A loop is entered for the second time when its jump is overwritten by the stop instruction. The
run is closed as halted, although the address is an origin and the guard is on. A program whose
second line is refused has executed two instructions and reported three. -/
theorem run_accounts_for_instructions_overwritten :
    let looping := (loaded { tracing := true } {} doubling).stepped 8
    let start := (looping.writeMemory 20 0x01).machine
    let cut := loaded {} { capacity := some 6 } largestTwice
    20 ∈ start.origins ∧
      (∃ turn front, start.run = some turn ∧ turn.events = front ++ [.halted 20 12] ∧
        (∀ event ∈ front, event.isClosing = false) ∧
        8 + (Event.dispatches turn.events).length = 12) ∧
      ∃ turn, cut.run = some turn ∧ turn.answer = .error (.output .full) ∧
        turn.machine.steps = 2 ∧ (Event.dispatches turn.events).length = 3 := by
  intro looping start cut
  have hends : start.EndsAt 3 := ⟨by decide +kernel, by decide +kernel⟩
  have hrun := run_eq_some_iff.mpr ⟨3, hends, rfl⟩
  have hok : (start.ending 3).answer = .ok () := by decide +kernel
  have hhlt : (start.stepped 3).instruction? = some .hlt := by decide +kernel
  have hcounter : (start.ending 3).machine.counter = 20 := by decide +kernel
  have hsteps : (start.ending 3).machine.steps = 12 := by decide +kernel
  have hcut : cut.EndsAt 2 := ⟨by decide +kernel, by decide +kernel⟩
  have hcutRun := run_eq_some_iff.mpr ⟨2, hcut, rfl⟩
  have hfault : (cut.ending 2).answer = .error (.output .full) := by decide +kernel
  have hexecuted : (cut.ending 2).machine.steps = 2 := by decide +kernel
  obtain ⟨last, hlast, -, -, -, hcounted, hclosed, -⟩ :=
    run_accounts_for_instructions (by decide +kernel) hrun
  obtain ⟨-, -, -, -, hrefused, -⟩ := run_accounts_for_instructions rfl hcutRun
  obtain rfl := hlast.unique hends
  obtain ⟨front, hfront, hevents⟩ := hclosed hok
  rw [if_pos hhlt, hcounter, hsteps] at hevents
  have hcount := hcounted fun fault hother => by
    rw [hok] at hother
    cases hother
  have hmore := hrefused _ hfault (Or.inr ⟨.full, rfl⟩)
  have hnew : cut.steps = 0 := rfl
  rw [hsteps] at hcount
  rw [hnew, hexecuted] at hmore
  exact ⟨by decide +kernel, ⟨_, front, hrun, hevents, hfront, hcount⟩, _, hcutRun, hfault,
    hexecuted, by omega⟩

end Machine

end ByteMachine
