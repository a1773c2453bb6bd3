import ByteMachine.Proofs.Execution.Stepping

/-!
# What the next steps depend on

The answers of a machine depend on its configuration, counter, registers, memory and status, on the
room that is left in its sink, and on nothing else: on the origins only under the guard, on the
count of instructions only under a step limit, never on what has been printed. Machines that agree
on all of this are `Alike`; they stay so and answer the same for ever.
-/

namespace ByteMachine

namespace Sink

/-- Characters for which a bounded sink still has room. -/
def room (sink : Sink) : Option Nat :=
  sink.capacity.map fun capacity => capacity - sink.contents.size

/-- Whether a line fits is a matter of the room. -/
theorem fits_eq_of_room {first second : Sink} (h : second.room = first.room) (value : UInt8) :
    second.fits (line value) = first.fits (line value) := by
  have hpos : 0 < (line value).length := List.length_pos_iff.mpr (line_ne_nil value)
  unfold room at h
  unfold fits
  cases hfirst : first.capacity with
  | none =>
    rw [hfirst, Option.map_none, Option.map_eq_none_iff] at h
    rw [h]
  | some capacity =>
    rw [hfirst, Option.map_some, Option.map_eq_some_iff] at h
    obtain ⟨other, hother, hroom⟩ := h
    simp only [hother, decide_eq_decide]
    omega

/-- How much of a line is taken is a matter of the room. -/
theorem fitting_eq_of_room {first second : Sink} (h : second.room = first.room)
    (line : List Char) : second.fitting line = first.fitting line := by
  unfold room at h
  unfold fitting
  cases hfirst : first.capacity with
  | none =>
    rw [hfirst, Option.map_none, Option.map_eq_none_iff] at h
    rw [h]
  | some capacity =>
    rw [hfirst, Option.map_some, Option.map_eq_some_iff] at h
    obtain ⟨other, hother, hroom⟩ := h
    simp only [hother, hroom]

/-- What is taken from a line takes up room. -/
theorem room_write (sink : Sink) (line : List Char) :
    (sink.write line).room = sink.room.map fun room => room - (sink.fitting line).length := by
  unfold room
  rw [Option.map_map, write_size]
  change sink.capacity.map _ = sink.capacity.map _
  congr 1
  funext capacity
  exact Nat.sub_add_eq capacity _ _

end Sink

/-- An instruction executed with equal room in the sink yields the same and leaves equal room. -/
theorem Opcode.execute_of_room (op : Opcode) (registers : Registers) {first second : Sink}
    (hroom : second.room = first.room) (hrefusal : second.refusal = first.refusal) (a b : UInt8) :
    ∃ sink, op.execute registers second a b = { op.execute registers first a b with sink } ∧
      sink.room = (op.execute registers first a b).sink.room ∧
        sink.refusal = (op.execute registers first a b).sink.refusal := by
  by_cases hop : op = .prn
  · subst hop
    unfold execute print
    cases registers.read a with
    | error fault => exact ⟨second, rfl, hroom, hrefusal⟩
    | ok value =>
      have hfitting := Sink.fitting_eq_of_room hroom (Sink.line value)
      refine ⟨second.write (Sink.line value), ?_, ?_, hrefusal⟩
      · simp only [Sink.fits_eq_of_room hroom, hrefusal]
      · simp only [Sink.room_write, hroom, hfitting]
  · rw [execute_sink hop]
    exact ⟨second, execute_withSink hop registers first second a b, hroom, hrefusal⟩

namespace Machine

/-- Two machines that nothing but their pasts tells apart. -/
structure Alike (first second : Machine) : Prop where
  config : second.config = first.config
  counter : second.counter = first.counter
  registers : second.registers = first.registers
  memory : second.memory = first.memory
  status : second.status = first.status
  origins : first.config.revisitGuard = true → second.origins = first.origins
  steps : first.config.stepLimit ≠ none → second.steps = first.steps
  room : second.sink.room = first.sink.room
  refusal : second.sink.refusal = first.sink.refusal

namespace Alike

variable {first second : Machine}

/-- Machines alike find the same instruction. -/
theorem decode_eq (h : Alike first second) : second.decode = first.decode := by
  unfold decode fetch
  rw [h.memory, h.counter]

/-- Machines alike have reached their limits or have not. -/
theorem reachedLimit?_eq (h : Alike first second) :
    second.reachedLimit? = first.reachedLimit? := by
  unfold reachedLimit?
  rw [h.config]
  cases hlimit : first.config.stepLimit with
  | none => rfl
  | some limit => rw [h.steps (by simp [hlimit])]

/-- The guard holds machines alike or lets them go. -/
theorem guarded_iff (h : Alike first second) : second.Guarded ↔ first.Guarded := by
  unfold Guarded
  rw [h.config, h.counter]
  refine ⟨fun h => ?_, fun h => ?_⟩
  · obtain ⟨hguard, hmem⟩ := h
    exact ⟨hguard, h.origins hguard ▸ hmem⟩
  · obtain ⟨hguard, hmem⟩ := h
    exact ⟨hguard, (h.origins hguard).symm ▸ hmem⟩

/-- Machines alike stay so when they are moved on. -/
theorem proceed (h : Alike first second) (fields : Fields) (request : Request) :
    Alike (first.proceed fields request) (second.proceed fields request) := by
  have hadvance : Alike (first.advance fields) (second.advance fields) :=
    { h with counter := by simp only [advance, h.counter] }
  have hjump (target : UInt8) : Alike (first.jump target) (second.jump target) :=
    { h with
      counter := rfl
      origins := fun hguard => by simp only [jump, h.origins hguard, h.counter] }
  cases request with
  | advance => exact hadvance
  | halt => exact hadvance
  | jump target =>
    by_cases hsets : fields.setsCounter = true
    · simp only [Machine.proceed, if_pos hsets]
      exact hjump target
    · simp only [Machine.proceed, if_neg hsets]
      exact hadvance

/-- Machines alike settle alike. -/
theorem settle (h : Alike first second) (fields : Fields) (request : Request) :
    (second.settle fields request).answer = (first.settle fields request).answer ∧
      Alike (first.settle fields request).machine (second.settle fields request).machine := by
  have hhalt : Alike first.halt second.halt := { h with status := rfl }
  by_cases hrequest : request = .halt
  · rw [hrequest, settle_of_halt, settle_of_halt]
    exact ⟨rfl, hhalt⟩
  · by_cases hguarded : first.Guarded
    · rw [settle_of_guarded hrequest hguarded,
        settle_of_guarded hrequest (h.guarded_iff.mpr hguarded)]
      exact ⟨rfl, hhalt⟩
    · rw [settle_of_proceed hrequest hguarded,
        settle_of_proceed hrequest fun hsecond => hguarded (h.guarded_iff.mp hsecond)]
      exact ⟨rfl, h.proceed fields request⟩

/-- Machines alike get the same out of an instruction, and sinks with equal room. -/
theorem execute (h : Alike first second) {op : Opcode} {a b : UInt8}
    {outcome : Except Fault Request} {registers : Registers} {sink : Sink}
    (executed : op.execute first.registers first.sink a b = ⟨outcome, registers, sink⟩) :
    ∃ sink', op.execute second.registers second.sink a b = ⟨outcome, registers, sink'⟩ ∧
      sink'.room = sink.room ∧ sink'.refusal = sink.refusal := by
  have hroom := op.execute_of_room first.registers h.room h.refusal a b
  rwa [executed, ← h.registers] at hroom

/-- Machines alike come to the same instruction. -/
theorem dispatches (h : Alike first second) {op : Opcode} {a b : UInt8}
    (hfirst : first.Dispatches op a b) : second.Dispatches op a b where
  running := h.status.trans hfirst.running
  belowLimit := h.reachedLimit?_eq.trans hfirst.belowLimit
  decoded := h.decode_eq.trans hfirst.decoded

/-- Machines alike answer a step alike and stay so. -/
theorem step (h : Alike first second) :
    second.step.answer = first.step.answer ∧ Alike first.step.machine second.step.machine := by
  cases first.stage with
  | halted hhalted =>
    rw [step_halted hhalted, step_halted (h.status.trans hhalted)]
    exact ⟨rfl, h⟩
  | limited hrunning hlimit =>
    rw [step_of_reachedLimit hrunning hlimit,
      step_of_reachedLimit (h.status.trans hrunning) (h.reachedLimit?_eq.trans hlimit)]
    exact ⟨rfl, h⟩
  | undecoded hrunning hlimit hdecode =>
    rw [step_of_undecoded hrunning hlimit hdecode,
      step_of_undecoded (h.status.trans hrunning) (h.reachedLimit?_eq.trans hlimit)
        (h.decode_eq.trans hdecode)]
    exact ⟨rfl, h⟩
  | refused hdispatches hrefused =>
    obtain ⟨sink', hrefused', hroom, hrefusal⟩ := h.execute hrefused
    rw [← h.registers] at hrefused'
    rw [hdispatches.step_of_refused hrefused,
      (h.dispatches hdispatches).step_of_refused hrefused']
    exact ⟨rfl, { h with room := hroom, refusal := hrefusal }⟩
  | @executes op a b registers request sink hfirst =>
    obtain ⟨sink', hexecuted, hroom, hrefusal⟩ := h.execute hfirst.executed
    have hsecond : second.Executes op a b registers request sink' :=
      ⟨h.dispatches hfirst.toDispatches, hexecuted⟩
    have hresults : Alike (first.withResults registers sink) (second.withResults registers sink') :=
      { h with
        registers := rfl
        steps := fun hlimit => congrArg (· + 1) (h.steps hlimit)
        room := hroom
        refusal := hrefusal }
    rw [hfirst.step_eq, hsecond.step_eq]
    exact hresults.settle op.fields request

/-- Machines alike stay so however often they are stepped. -/
theorem stepped (h : Alike first second) (calls : Nat) :
    Alike (first.stepped calls) (second.stepped calls) := by
  induction calls with
  | zero => exact h
  | succ calls ih =>
    rw [stepped_succ, stepped_succ]
    exact ih.step.2

end Alike

end Machine

end ByteMachine
