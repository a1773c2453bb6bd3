import ByteMachine.Proofs.Execution.Horizon
import ByteMachine.Proofs.Execution.JumpOrigins

/-!
# How long a guarded run takes

Every guarded run ends, whatever state it starts from: `guarded_run_ends`. A run of a program that
has just been loaded takes 16256 instructions at most. It starts with no origins and takes no more
than 127 jumps, since no two origins are neighbours; so it falls into at most 128 stretches without
a jump that is taken, each of at most 127 instructions. A larger step limit is never reached.
-/

namespace ByteMachine.Machine

/-- Bound on the instructions of a guarded run that are still to come, in a machine whose origins
are jumps. -/
def loadedMeasure (machine : Machine) : Nat :=
  127 * (127 - machine.origins.size) + instructionsAhead machine.counter

/-- A guarded step that goes on lowers the bound. -/
theorem loadedMeasure_step_lt {machine : Machine} (hguard : machine.config.revisitGuard = true)
    (hjumps : machine.OriginsAreJumps) (h : machine.step.answer = .ok .running) :
    machine.step.machine.loadedMeasure < machine.loadedMeasure := by
  have hcounter : machine.counter + 2 < 256 := (step_counts_of_running h).1
  have hahead := instructionsAhead_le machine.step.machine.counter
  have hsize := hjumps.step.size_le
  unfold loadedMeasure
  rcases step_moves h with ⟨horigins, hlow, -⟩ | ⟨horigins, -, hguarded⟩
  · rw [horigins]
    unfold instructionsAhead
    omega
  · have hnew : machine.counter ∉ machine.origins := fun hmem => hguarded ⟨hguard, hmem⟩
    rw [horigins, Origins.size_insert_of_not_mem hnew] at hsize ⊢
    unfold instructionsAhead at *
    omega

/-- Before the first instruction of a loaded program the bound is 16256. -/
theorem loadedMeasure_loaded (config : Config) (sink : Sink) (image : Image) :
    (loaded config sink image).loadedMeasure = 128 * 127 := by
  have hsize : (loaded config sink image).origins.size = 0 := rfl
  have hcounter : (loaded config sink image).counter = 0 := rfl
  rw [loadedMeasure, hsize, hcounter]
  decide

/-- The instructions that a guarded run has executed since the program was loaded, and the bound on
those to come, never exceed 16256. -/
theorem GoesOn.add_loadedMeasure_le {config : Config} {sink : Sink} {image : Image} {calls : Nat}
    (h : (loaded config sink image).GoesOn calls) (hguard : config.revisitGuard = true) :
    calls + ((loaded config sink image).stepped calls).loadedMeasure ≤ 128 * 127 := by
  induction calls with
  | zero => rw [stepped_zero, loadedMeasure_loaded, Nat.zero_add]
  | succ calls ih =>
    have hlt := loadedMeasure_step_lt (by rw [stepped_config]; exact hguard)
      ((originsAreJumps_loaded config sink image).stepped calls) (h calls (by omega))
    have hle := ih (h.mono (Nat.le_succ calls))
    rw [stepped_succ]
    omega

/-- A guarded run of a loaded program ends after 16256 instructions at most. -/
theorem EndsAt.steps_le {config : Config} {sink : Sink} {image : Image} {last : Nat}
    (h : (loaded config sink image).EndsAt last) (hguard : config.revisitGuard = true) :
    last ≤ 128 * 127 ∧ ((loaded config sink image).ending last).machine.steps ≤ 128 * 127 := by
  have hle := h.goesOn.add_loadedMeasure_le hguard
  have hzero : (loaded config sink image).steps = 0 := rfl
  rcases h.steps_ending rfl with ⟨hsteps, -⟩ | ⟨hsteps, -, hcounter⟩
  · omega
  · have hahead : 1 ≤ instructionsAhead ((loaded config sink image).stepped last).counter := by
      change _ < 256 at hcounter
      unfold instructionsAhead
      omega
    unfold loadedMeasure at hle
    omega

/-- A guarded run always ends, whatever state the machine is in. Right after a program was loaded
it executes 16256 instructions at most, so that a larger step limit is never reported. -/
theorem guarded_run_ends :
    (∀ machine : Machine, machine.config.revisitGuard = true →
      ∃ last, machine.EndsAt last ∧ machine.run = some (machine.ending last)) ∧
    ∀ (machine : Machine) (image : Image), machine.config.revisitGuard = true →
      ∃ turn, (machine.load image).machine.run = some turn ∧ turn.machine.steps ≤ 128 * 127 ∧
        ∀ limit, machine.config.stepLimit = some limit → 128 * 127 < limit →
          ∀ reported, turn.answer ≠ .error (.stepLimitExceeded reported) := by
  have hends (machine : Machine) (hguard : machine.config.revisitGuard = true) :
      ∃ last, machine.EndsAt last ∧ machine.run = some (machine.ending last) := by
    obtain ⟨last, -, hlast⟩ := exists_endsAt_of_guard hguard
    exact ⟨last, hlast, run_eq_some_iff.mpr ⟨last, hlast, rfl⟩⟩
  refine ⟨hends, fun machine image hguard => ?_⟩
  obtain ⟨last, hlast, hrun⟩ := hends (machine.load image).machine hguard
  rw [load_machine] at hlast hrun
  obtain ⟨hle, hsteps⟩ := hlast.steps_le hguard
  refine ⟨_, hrun, hsteps, fun limit hlimit hlarge reported hanswer => ?_⟩
  obtain ⟨hset, hreached, -, -⟩ := reached_of_stepLimitExceeded (ending_eq_error_iff.mp hanswer)
  have hexecuted : ((loaded machine.config machine.sink image).stepped last).steps = 0 + last :=
    (hlast.goesOn.counts rfl).2
  rw [stepped_config] at hset
  have hsame : some limit = some reported := hlimit.symm.trans hset
  cases hsame
  omega

/-- The doubling program ends, and does so below a limit of 20000 instructions. -/
theorem guarded_run_ends_doubling :
    (∃ last, (loaded {} {} doubling).EndsAt last ∧
      (loaded {} {} doubling).run = some ((loaded {} {} doubling).ending last)) ∧
    ∃ turn, ((new { stepLimit := some 20000 } {}).load doubling).machine.run = some turn ∧
      turn.machine.steps ≤ 128 * 127 ∧
        ∀ reported, turn.answer ≠ .error (.stepLimitExceeded reported) := by
  obtain ⟨turn, hrun, hsteps, hlimit⟩ :=
    guarded_run_ends.2 (new { stepLimit := some 20000 } {}) doubling rfl
  exact ⟨guarded_run_ends.1 (loaded {} {} doubling) rfl, turn, hrun, hsteps,
    hlimit 20000 rfl (by decide)⟩

end ByteMachine.Machine
