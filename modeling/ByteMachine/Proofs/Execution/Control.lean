import ByteMachine.Proofs.Execution.Stepping

/-!
# Changes that spare control

After an instruction a machine settles: it stops, or it moves its counter and perhaps remembers
where a jump came from. The sink and the memory take no part in this, and the configuration does so
by the guard only. A change of such a part therefore comes out the same before and after the machine
has settled, which is stated here once for all of them.
-/

namespace ByteMachine.Machine

/-- A change of a machine that keeps what settling reads and leaves alone what settling writes. -/
structure SparesControl (change : Machine → Machine) : Prop where
  counter : ∀ machine, (change machine).counter = machine.counter
  steps : ∀ machine, (change machine).steps = machine.steps
  origins : ∀ machine, (change machine).origins = machine.origins
  halted : ∀ machine, change machine.halt = (change machine).halt
  moved : ∀ machine counter origins,
    change { machine with counter, origins } = { change machine with counter, origins }

/-- A machine settles alike before and after such a change, unless the guard makes the
difference. -/
theorem SparesControl.settle {change : Machine → Machine} (h : SparesControl change)
    {machine : Machine} {fields : Fields} {request : Request}
    (hguard : request = .halt ∨ ((change machine).Guarded ↔ machine.Guarded)) :
    (change machine).settle fields request = (machine.settle fields request).mapMachine change := by
  by_cases hrequest : request = .halt
  · rw [hrequest, settle_of_halt, settle_of_halt, Turn.mapMachine, h.halted, h.counter, h.steps]
  · have hiff := hguard.resolve_left hrequest
    by_cases hguarded : machine.Guarded
    · rw [settle_of_guarded hrequest hguarded, settle_of_guarded hrequest (hiff.mpr hguarded),
        Turn.mapMachine, h.halted, h.counter]
    · obtain ⟨counter, origins, hproceed, hother⟩ :=
        proceed_congr (h.counter machine) (h.origins machine) fields request
      rw [settle_of_proceed hrequest hguarded,
        settle_of_proceed hrequest fun hchanged => hguarded (hiff.mp hchanged), hproceed, hother,
        ← h.moved]
      rfl

end ByteMachine.Machine
