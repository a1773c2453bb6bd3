import ByteMachine.Proofs.Execution.Configure
import ByteMachine.Proofs.Execution.JumpOrigins

/-!
# The guard only cuts a run short

A program is run with the guard and without it. Up to the step that the guard stops, the two
machines agree in everything but their configurations. The guard is asked after the instruction has
been executed; but an origin still holds the jump that was taken from there, so this instruction
neither prints nor changes a register nor fails. The two machines then differ in their counters and
their statuses only.
-/

namespace ByteMachine.Machine

/-- The next step is stopped by the guard, and says so. -/
def StoppedByGuard (machine : Machine) : Prop :=
  .revisited machine.counter ∈ machine.step.events

instance (machine : Machine) : Decidable machine.StoppedByGuard :=
  inferInstanceAs (Decidable (_ ∈ _))

/-- The machine with its guard switched off. -/
def unguard (machine : Machine) : Machine :=
  machine.configure (machine.config.withRevisitGuard false)

variable {machine : Machine}

/-- A trace is no report of the guard. -/
theorem revisited_not_mem_traceEvents (machine : Machine) (counter : Nat) :
    .revisited counter ∉ machine.traceEvents := by
  unfold traceEvents
  split <;> simp

/-- The guard stops a step exactly when it executes an instruction, other than the stop
instruction, at an address that the guard holds. -/
theorem stoppedByGuard_iff :
    machine.StoppedByGuard ↔ machine.Guarded ∧
      ∃ op a b registers request sink,
        machine.Executes op a b registers request sink ∧ request ≠ .halt := by
  have htrace := machine.revisited_not_mem_traceEvents machine.counter
  unfold StoppedByGuard
  refine ⟨fun hmem => ?_, fun h => ?_⟩
  · cases machine.stage with
    | halted hhalted =>
      rw [step_halted hhalted] at hmem
      cases hmem
    | limited hrunning hlimit =>
      rw [step_of_reachedLimit hrunning hlimit] at hmem
      cases hmem
    | undecoded hrunning hlimit hdecode =>
      rw [step_of_undecoded hrunning hlimit hdecode] at hmem
      exact absurd hmem htrace
    | refused hdispatches hrefused =>
      rw [hdispatches.step_of_refused hrefused] at hmem
      simp [htrace] at hmem
    | @executes op a b registers request sink h =>
      rw [h.step_eq] at hmem
      by_cases hrequest : request = .halt
      · rw [hrequest, settle_of_halt] at hmem
        simp [Turn.reporting, htrace] at hmem
      · by_cases hguarded : machine.Guarded
        · exact ⟨hguarded, op, a, b, registers, request, sink, h, hrequest⟩
        · have hresults : ¬(machine.withResults registers sink).Guarded := hguarded
          rw [settle_of_proceed hrequest hresults] at hmem
          simp [Turn.reporting, htrace] at hmem
  · obtain ⟨hguarded, op, a, b, registers, request, sink, h, hrequest⟩ := h
    have hresults : (machine.withResults registers sink).Guarded := hguarded
    rw [h.step_eq, settle_of_guarded hrequest hresults]
    simp [Turn.reporting, withResults]

/-- Without the guard nothing is held. -/
theorem not_guarded_unguard (machine : Machine) : ¬machine.unguard.Guarded := by
  intro hguarded
  cases hguarded.1

/-- A step that is not stopped by the guard is the same without it. -/
theorem step_unguard (h : ¬machine.StoppedByGuard) :
    machine.unguard.step = machine.step.mapMachine unguard := by
  have hstep : machine.unguard.step =
      machine.step.mapMachine (configure (machine.config.withRevisitGuard false)) := by
    refine step_configure rfl (fun _ => rfl) fun op a b registers request sink hexecutes => ?_
    by_cases hrequest : request = .halt
    · exact Or.inl hrequest
    · right
      have hguarded : ¬machine.Guarded := fun hguarded =>
        h (stoppedByGuard_iff.mpr
          ⟨hguarded, op, a, b, registers, request, sink, hexecutes, hrequest⟩)
      exact iff_of_false machine.not_guarded_unguard hguarded
  rw [hstep, Turn.mapMachine, Turn.mapMachine, unguard, step_config]

/-- Until the guard stops a step, the machine without it does the same. -/
theorem stepped_unguard {calls : Nat}
    (h : ∀ earlier < calls, ¬(machine.stepped earlier).StoppedByGuard) :
    machine.unguard.stepped calls = (machine.stepped calls).unguard := by
  induction calls with
  | zero => rfl
  | succ calls ih =>
    have hsame := ih fun earlier hlt => h earlier (by omega)
    rw [stepped_succ, hsame, step_unguard (h calls (by omega)), stepped_succ]
    rfl

/-- Where the guard stops a step, the instruction is a jump to be taken once more or to be passed
by. Without the guard the machine goes on, and differs afterwards in its counter and its status
only. -/
theorem StoppedByGuard.step_unguard (h : machine.StoppedByGuard)
    (hjumps : machine.OriginsAreJumps) :
    machine.unguard.step.answer = .ok .running ∧
      machine.step.machine =
        { machine.unguard.step.machine with
          config := machine.config, counter := machine.counter, status := .halted } := by
  obtain ⟨hguarded, op, a, b, registers, request, sink, hexecutes, hrequest⟩ :=
    stoppedByGuard_iff.mp h
  obtain ⟨jump, number, hjump, hopcode, hnumber, hlt, -⟩ := hjumps machine.counter hguarded.2
  obtain ⟨hopcode', ha, -⟩ := fetch_eq_ok_iff.mp (decode_eq_ok_iff.mp hexecutes.decoded)
  obtain rfl : op = jump :=
    Opcode.byte_injective (Option.some.inj (hopcode'.symm.trans hopcode))
  obtain rfl : a = number := Option.some.inj (ha.symm.trans hnumber)
  obtain ⟨_, hexecuted, -⟩ :=
    hjump.execute (Registers.read_of_lt machine.registers hlt) machine.sink b
  have hresults := hexecuted.symm.trans hexecutes.executed
  simp only [Effect.mk.injEq, Except.ok.injEq] at hresults
  obtain ⟨-, rfl, rfl⟩ := hresults
  have hother : machine.unguard.Executes op a b machine.registers request machine.sink :=
    ⟨⟨hexecutes.running, hexecutes.belowLimit, hexecutes.decoded⟩, hexecutes.executed⟩
  obtain ⟨hanswer, hmachine⟩ := hother.step_of_proceed hrequest machine.not_guarded_unguard
  refine ⟨hanswer, ?_⟩
  rw [(hexecutes.step_of_guarded hrequest hguarded).2, hmachine]
  rcases hother.proceed_cases hrequest with ⟨-, hadvance⟩ | ⟨target, -, -, -, -, htaken⟩
  · rw [hadvance]
    rfl
  · rw [htaken]
    have horigins : machine.origins.insert machine.counter = machine.origins :=
      Origins.insert_of_mem hguarded.2
    change _ = { machine.unguard with
      config := machine.config, steps := machine.steps + 1, status := .halted,
      origins := machine.origins.insert machine.counter }
    rw [horigins]
    rfl

/-- Among a number of steps none is stopped by the guard, or there is a first that is. -/
theorem forall_not_or_exists_first_stop (machine : Machine) (calls : Nat) :
    (∀ earlier < calls, ¬(machine.stepped earlier).StoppedByGuard) ∨
      ∃ stop < calls, (machine.stepped stop).StoppedByGuard ∧
        ∀ earlier < stop, ¬(machine.stepped earlier).StoppedByGuard := by
  induction calls with
  | zero => exact Or.inl fun earlier hlt => absurd hlt (by omega)
  | succ calls ih =>
    rcases ih with hnone | ⟨stop, hlt, hstop⟩
    · by_cases hlast : (machine.stepped calls).StoppedByGuard
      · exact Or.inr ⟨calls, by omega, hlast, hnone⟩
      · left
        intro earlier hlt
        rcases by omega with hlt | rfl : earlier < calls ∨ earlier = calls
        · exact hnone earlier hlt
        · exact hlast
    · exact Or.inr ⟨stop, by omega, hstop⟩

/-- What a guarded machine has printed is what the unguarded one had printed after no more
steps. -/
theorem exists_stepped_sink_eq (hjumps : machine.OriginsAreJumps) (calls : Nat) :
    ∃ earlier ≤ calls, (machine.stepped calls).sink = (machine.unguard.stepped earlier).sink := by
  rcases machine.forall_not_or_exists_first_stop calls with hnone | ⟨stop, hlt, hstopped, hfirst⟩
  · refine ⟨calls, Nat.le_refl calls, ?_⟩
    rw [stepped_unguard hnone]
    rfl
  · obtain ⟨-, hmachine⟩ := hstopped.step_unguard (hjumps.stepped stop)
    rw [← stepped_unguard hfirst, ← stepped_succ, ← stepped_succ] at hmachine
    have hhalted : (machine.stepped (stop + 1)).status = .halted := by rw [hmachine]
    have hrest := stepped_of_halted hhalted (calls - (stop + 1))
    rw [stepped_add, Nat.add_sub_cancel' hlt] at hrest
    refine ⟨stop + 1, hlt, ?_⟩
    rw [hrest, hmachine]

/-- Until the guard stops a step, a loaded program does the same with it and without it. At that
step the two machines come apart in counter and status only. -/
theorem guard_only_cuts_short (config : Config) (sink : Sink) (image : Image) :
    let guarded := loaded (config.withRevisitGuard true) sink image
    let unguarded := loaded (config.withRevisitGuard false) sink image
    (∀ calls, (∀ earlier < calls, ¬(guarded.stepped earlier).StoppedByGuard) →
      (∀ earlier < calls,
        (unguarded.stepped earlier).step.answer = (guarded.stepped earlier).step.answer) ∧
      unguarded.stepped calls =
        { guarded.stepped calls with config := config.withRevisitGuard false } ∧
      ((guarded.stepped calls).StoppedByGuard →
        (guarded.stepped calls).step.answer = .ok .halted ∧
        (unguarded.stepped calls).step.answer = .ok .running ∧
        guarded.stepped (calls + 1) =
          { unguarded.stepped (calls + 1) with
            config := config.withRevisitGuard true
            counter := (guarded.stepped calls).counter
            status := .halted })) ∧
    ∀ calls later, calls ≤ later →
      (guarded.stepped calls).sink.contents.toList <+:
        (unguarded.stepped later).sink.contents.toList := by
  intro guarded unguarded
  have hunguard : guarded.unguard = unguarded := rfl
  have hjumps : guarded.OriginsAreJumps := originsAreJumps_loaded _ sink image
  have hconfig (calls : Nat) : (guarded.stepped calls).config = config.withRevisitGuard true :=
    stepped_config guarded calls
  have hunguarded (calls : Nat) : (guarded.stepped calls).unguard =
      { guarded.stepped calls with config := config.withRevisitGuard false } := by
    unfold unguard
    rw [hconfig]
    rfl
  refine ⟨fun calls hgoes => ?_, fun calls later hle => ?_⟩
  · have hsame := stepped_unguard hgoes
    rw [hunguard] at hsame
    refine ⟨fun earlier hlt => ?_, hsame.trans (hunguarded calls), fun hstopped => ?_⟩
    · have hstep := step_unguard (hgoes earlier hlt)
      rw [← stepped_unguard fun first hfirst => hgoes first (by omega), hunguard] at hstep
      rw [hstep]
      rfl
    · obtain ⟨hanswer, hmachine⟩ := hstopped.step_unguard (hjumps.stepped calls)
      rw [← hsame, ← stepped_succ, ← stepped_succ, hconfig] at hmachine
      rw [← hsame] at hanswer
      obtain ⟨hguarded, op, a, b, registers, request, sink, hexecutes, hrequest⟩ :=
        stoppedByGuard_iff.mp hstopped
      exact ⟨(hexecutes.step_of_guarded hrequest hguarded).1, hanswer, hmachine⟩
  · obtain ⟨earlier, hearlier, hsink⟩ := exists_stepped_sink_eq hjumps calls
    have hprefix := contents_isPrefix_stepped (unguarded.stepped earlier) (later - earlier)
    rw [stepped_add, Nat.add_sub_cancel' (Nat.le_trans hearlier hle)] at hprefix
    rw [hsink]
    exact hprefix

/-- The doubling program comes back to its jump with the twelfth step. -/
theorem guard_only_cuts_short_doubling :
    let guarded := loaded {} {} doubling
    let unguarded := loaded { revisitGuard := false } {} doubling
    (∀ earlier < 11, ¬(guarded.stepped earlier).StoppedByGuard) ∧
      (guarded.stepped 11).StoppedByGuard ∧
        (unguarded.stepped 11).step.answer = .ok .running ∧
          (guarded.stepped 12).sink.text = "1\n2\n" := by
  have hgoes : ∀ earlier < 11, ¬((loaded {} {} doubling).stepped earlier).StoppedByGuard := by
    decide +kernel
  have hstopped : ((loaded {} {} doubling).stepped 11).StoppedByGuard := by
    decide +kernel
  obtain ⟨-, -, hstop⟩ := (guard_only_cuts_short {} {} doubling).1 11 hgoes
  exact ⟨hgoes, hstopped, (hstop hstopped).2.1, by decide +kernel⟩

end ByteMachine.Machine
