import ByteMachine.Proofs.Execution.Control

/-!
# The same machine under another configuration

The configuration takes part in a step at three places only: the step limit before the instruction
cycle, the trace behind it, and the guard after the instruction. Where two configurations agree on
the limit and on the guard, a machine steps under the one as it does under the other, except that
it may announce the step under one of them only (`exists_step_configure`).
-/

namespace ByteMachine

namespace Config

/-- The configuration with the guard on or off. -/
def withRevisitGuard (config : Config) (guard : Bool) : Config :=
  { config with revisitGuard := guard }

/-- The configuration with a step limit or without one. -/
def withStepLimit (config : Config) (limit : Option Nat) : Config :=
  { config with stepLimit := limit }

end Config

namespace Machine

/-- The machine under another configuration. -/
def configure (config : Config) (machine : Machine) : Machine :=
  { machine with config }

variable {machine : Machine}

/-- The configuration has no say in where a machine settles, but for the guard. -/
theorem sparesControl_configure (config : Config) : SparesControl (configure config) where
  counter _ := rfl
  steps _ := rfl
  origins _ := rfl
  halted _ := rfl
  moved _ _ _ := rfl

/-- What a step reports before anything else. Only a running machine below its limit is traced. -/
def announced (machine : Machine) : List Event :=
  if machine.status = .running ∧ machine.reachedLimit? = none then machine.traceEvents else []

/-- A running machine below its limit announces a step as it is traced. -/
theorem announced_of_belowLimit (running : machine.status = .running)
    (belowLimit : machine.reachedLimit? = none) : machine.announced = machine.traceEvents :=
  if_pos ⟨running, belowLimit⟩

/-- A machine that has stopped announces nothing. -/
theorem announced_of_halted (halted : machine.status = .halted) : machine.announced = [] := by
  simp [announced, halted]

/-- A machine that has reached its limit announces nothing. -/
theorem announced_of_reachedLimit {limit : Nat} (reached : machine.reachedLimit? = some limit) :
    machine.announced = [] := by
  simp [announced, reached]

/-- Settling is reported, but not as a trace. -/
theorem level_ne_info_of_mem_settle {fields : Fields} {request : Request} :
    ∀ event ∈ (machine.settle fields request).events, event.level ≠ .info := by
  unfold settle
  split
  · simp [Event.level]
  · split <;> simp [Event.level]

/-- A step comes out alike under two configurations, unless the step limit or the guard makes a
difference: it may be announced under one of them only, and the rest of what it reports holds no
trace. -/
theorem exists_step_configure (config : Config)
    (hlimit : machine.status = .running →
      (machine.configure config).reachedLimit? = machine.reachedLimit?)
    (hguard : ∀ op a b registers request sink,
      machine.Executes op a b registers request sink →
        request = .halt ∨ ((machine.configure config).Guarded ↔ machine.Guarded)) :
    ∃ turn : Turn Status, (∀ event ∈ turn.events, event.level ≠ .info) ∧
      machine.step = turn.reporting machine.announced ∧
      (machine.configure config).step =
        (turn.mapMachine (configure config)).reporting (machine.configure config).announced := by
  have hdispatch {op : Opcode} {a b : UInt8} (h : machine.Dispatches op a b) :
      (machine.configure config).Dispatches op a b :=
    ⟨h.running, (hlimit h.running).trans h.belowLimit, h.decoded⟩
  have hstatus {status : Status} (h : machine.status = status) :
      (machine.configure config).status = status := h
  cases machine.stage with
  | halted hhalted =>
    refine ⟨⟨.ok .halted, machine, []⟩, by simp, ?_, ?_⟩
    · rw [step_halted hhalted, announced_of_halted hhalted]
      rfl
    · rw [step_halted (hstatus hhalted), announced_of_halted (hstatus hhalted)]
      rfl
  | @limited limit hrunning hreached =>
    have hother : (machine.configure config).reachedLimit? = some limit :=
      (hlimit hrunning).trans hreached
    refine ⟨⟨.error (.stepLimitExceeded limit), machine, []⟩, by simp, ?_, ?_⟩
    · rw [step_of_reachedLimit hrunning hreached, announced_of_reachedLimit hreached]
      rfl
    · rw [step_of_reachedLimit (hstatus hrunning) hother, announced_of_reachedLimit hother]
      rfl
  | @undecoded fault hrunning hbelow hdecode =>
    have hother : (machine.configure config).reachedLimit? = none :=
      (hlimit hrunning).trans hbelow
    refine ⟨⟨.error fault, machine, []⟩, by simp, ?_, ?_⟩
    · rw [step_of_undecoded hrunning hbelow hdecode, announced_of_belowLimit hrunning hbelow,
        Turn.reporting_of_silent]
    · rw [step_of_undecoded (hstatus hrunning) hother hdecode,
        announced_of_belowLimit (hstatus hrunning) hother]
      exact (Turn.reporting_of_silent _ _ _).symm
  | @refused op a b fault sink hdispatches hrefused =>
    have hother := hdispatch hdispatches
    refine ⟨⟨.error fault, { machine with sink }, [.dispatched machine.counter op.byte a b]⟩,
      by simp [Event.level], ?_, ?_⟩
    · rw [hdispatches.step_of_refused hrefused,
        announced_of_belowLimit hdispatches.running hdispatches.belowLimit]
      rfl
    · rw [hother.step_of_refused hrefused, announced_of_belowLimit hother.running hother.belowLimit]
      rfl
  | @executes op a b registers request sink h =>
    have hother : (machine.configure config).Executes op a b registers request sink :=
      ⟨hdispatch h.toDispatches, h.executed⟩
    have hresults : (machine.configure config).withResults registers sink =
        (machine.withResults registers sink).configure config := rfl
    have hsettle :
        ((machine.withResults registers sink).configure config).settle op.fields request =
          ((machine.withResults registers sink).settle op.fields request).mapMachine
            (configure config) :=
      (sparesControl_configure config).settle (hguard op a b registers request sink h)
    refine ⟨((machine.withResults registers sink).settle op.fields request).reporting
      [.dispatched machine.counter op.byte a b], ?_, ?_, ?_⟩
    · simpa [Event.level] using level_ne_info_of_mem_settle
    · rw [h.step_eq, announced_of_belowLimit h.running h.belowLimit, Turn.reporting_reporting]
    · rw [hother.step_eq, announced_of_belowLimit hother.running hother.belowLimit, hresults,
        hsettle, Turn.mapMachine_reporting, Turn.reporting_reporting]
      rfl

/-- A step comes out alike under two configurations with the same tracing, unless the step limit or
the guard makes a difference. -/
theorem step_configure {config : Config} (htracing : config.tracing = machine.config.tracing)
    (hlimit : machine.status = .running →
      (machine.configure config).reachedLimit? = machine.reachedLimit?)
    (hguard : ∀ op a b registers request sink,
      machine.Executes op a b registers request sink →
        request = .halt ∨ ((machine.configure config).Guarded ↔ machine.Guarded)) :
    (machine.configure config).step = machine.step.mapMachine (configure config) := by
  have htrace : (machine.configure config).traceEvents = machine.traceEvents := by
    unfold traceEvents
    change (if config.tracing = true then _ else _) = _
    rw [htracing]
    rfl
  have hannounced : (machine.configure config).announced = machine.announced := by
    cases hstatus : machine.status with
    | halted =>
      have hother : (machine.configure config).status = .halted := hstatus
      rw [announced_of_halted hstatus, announced_of_halted hother]
    | running =>
      unfold announced
      rw [hlimit hstatus, htrace]
      rfl
  obtain ⟨turn, -, hstep, hother⟩ := exists_step_configure config hlimit hguard
  rw [hstep, hother, hannounced]
  rfl

end Machine

end ByteMachine
