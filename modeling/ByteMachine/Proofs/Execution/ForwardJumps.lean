import ByteMachine.Proofs.Execution.Effects
import ByteMachine.Proofs.Execution.Horizon
import ByteMachine.Proofs.Execution.RevisitGuard

/-!
# Forward jumps need no guard

Where every jump that is taken leads beyond its own address, the counter rises with each step. Such
a run comes to no address twice, and it leaves the memory before long. All origins stay behind the
counter, so the guard finds nothing to stop. A jump may well lead into the operands of another
instruction: what counts here is the counter, and not where the author of the program wanted
instructions to begin.
-/

namespace ByteMachine.Machine

/-- Every jump that a machine takes, as long as it goes on, leads beyond its own address. -/
def JumpsForward (machine : Machine) : Prop :=
  ∀ calls, machine.GoesOn calls → (machine.stepped calls).takesJump = true →
    (machine.stepped calls).counter < (machine.stepped (calls + 1)).counter

/-- All jumps have been taken from addresses below the counter. -/
def OriginsBehind (machine : Machine) : Prop :=
  ∀ address ∈ machine.origins, address < machine.counter

variable {machine : Machine} {calls last : Nat}

/-- A loaded machine has no origins that could lie anywhere else. -/
theorem originsBehind_loaded (config : Config) (sink : Sink) (image : Image) :
    (loaded config sink image).OriginsBehind := by
  intro address hmem
  exact absurd hmem (Origins.not_mem_empty address)

namespace JumpsForward

/-- A step that goes on raises the counter, be it by a jump or by its length. -/
theorem counter_lt_succ (h : machine.JumpsForward) (hgoes : machine.GoesOn (calls + 1)) :
    (machine.stepped calls).counter < (machine.stepped (calls + 1)).counter := by
  rcases step_takesJump_cases (hgoes calls (by omega)) with ⟨htakes, -⟩ | ⟨-, hle, -⟩
  · exact h calls (hgoes.mono (by omega)) htakes
  · rw [stepped_succ]
    omega

/-- Later steps are taken at higher addresses. -/
theorem counter_lt (h : machine.JumpsForward) (hgoes : machine.GoesOn calls) {earlier : Nat}
    (hlt : earlier < calls) :
    (machine.stepped earlier).counter < (machine.stepped calls).counter := by
  induction calls with
  | zero => exact absurd hlt (Nat.not_lt_zero earlier)
  | succ calls ih =>
    have hnext := h.counter_lt_succ hgoes
    rcases Nat.lt_succ_iff_lt_or_eq.mp hlt with hlt | rfl
    · exact (ih (hgoes.mono (by omega)) hlt).trans hnext
    · exact hnext

/-- The counter is at least the number of steps. -/
theorem le_counter (h : machine.JumpsForward) (hgoes : machine.GoesOn calls) :
    calls ≤ (machine.stepped calls).counter := by
  induction calls with
  | zero => exact Nat.zero_le _
  | succ calls ih =>
    have hnext := h.counter_lt_succ hgoes
    have hbelow := ih (hgoes.mono (by omega))
    omega

/-- The counter leaves behind every address that a jump is taken from. -/
theorem originsBehind (h : machine.JumpsForward) (hbehind : machine.OriginsBehind)
    (hgoes : machine.GoesOn calls) : (machine.stepped calls).OriginsBehind := by
  induction calls with
  | zero => exact hbehind
  | succ calls ih =>
    have hnext := h.counter_lt_succ hgoes
    have hbefore := ih (hgoes.mono (by omega))
    intro address hmem
    rw [stepped_succ, origins_step] at hmem
    split at hmem
    · rcases Origins.mem_insert.mp hmem with rfl | hmem
      · exact hnext
      · exact (hbefore address hmem).trans hnext
    · exact (hbefore address hmem).trans hnext

/-- There is an end, before the counter could leave the memory. -/
theorem exists_endsAt (h : machine.JumpsForward) : ∃ last ≤ 254, machine.EndsAt last := by
  have hstops : ¬machine.GoesOn 255 := by
    intro hgoes
    have hcounter : 254 ≤ (machine.stepped 254).counter := h.le_counter (hgoes.mono (by omega))
    have hwithin : (machine.stepped 254).counter + 2 < 256 :=
      (step_counts_of_running (hgoes 254 (by omega))).1
    omega
  obtain ⟨last, hlt, hends⟩ := Machine.exists_endsAt hstops
  exact ⟨last, Nat.le_of_lt_succ hlt, hends⟩

/-- No more than 254 instructions are executed, one at each address at most. -/
theorem steps_ending_le (h : machine.JumpsForward) (running : machine.status = .running)
    (hends : machine.EndsAt last) : (machine.ending last).machine.steps ≤ machine.steps + 254 := by
  rcases hends.steps_ending running with ⟨hsteps, -⟩ | ⟨hsteps, -, hcounter⟩
  · obtain ⟨stop, hle, hstop⟩ := h.exists_endsAt
    rw [hsteps, hends.unique hstop]
    omega
  · have hwithin : (machine.stepped last).counter + 2 < 256 := hcounter
    have hbelow := h.le_counter hends.goesOn
    omega

end JumpsForward

/-- A step that the guard does not stop is the step without the guard, with the guard put back. -/
theorem step_eq_mapMachine_unguard (h : ¬machine.StoppedByGuard) :
    machine.step = machine.unguard.step.mapMachine (configure machine.config) := by
  have hback : configure machine.config machine.step.machine.unguard = machine.step.machine := by
    rw [← step_config machine]
    rfl
  rw [step_unguard h, Turn.mapMachine, Turn.mapMachine, hback]

section Guard

/-! A guarded machine that would only jump forward without the guard. -/

variable (h : machine.unguard.JumpsForward) (hbehind : machine.OriginsBehind)

include h hbehind

/-- The guard stops none of the steps that go on without it, nor the one behind them. -/
theorem not_stoppedByGuard_of_jumpsForward (hgoes : machine.unguard.GoesOn calls) :
    ¬(machine.stepped calls).StoppedByGuard := by
  induction calls using Nat.strongRecOn with
  | ind calls ih =>
    intro hstopped
    have hsame := stepped_unguard fun earlier hlt => ih earlier hlt (hgoes.mono (by omega))
    have hlt := h.originsBehind hbehind hgoes
    rw [hsame] at hlt
    exact Nat.lt_irrefl _ (hlt _ (stoppedByGuard_iff.mp hstopped).1.2)

/-- A run ends with the guard as it does without. -/
theorem ending_of_unguard (hends : machine.unguard.EndsAt last) :
    machine.EndsAt last ∧
      machine.ending last =
        (machine.unguard.ending last).mapMachine (configure machine.config) := by
  refine hends.ending_of_steps fun calls hle => ?_
  have hfree (earlier : Nat) (hearlier : earlier ≤ calls) :
      ¬(machine.stepped earlier).StoppedByGuard :=
    not_stoppedByGuard_of_jumpsForward h hbehind (hends.goesOn.mono (by omega))
  rw [step_eq_mapMachine_unguard (hfree calls (Nat.le_refl calls)), stepped_config,
    stepped_unguard fun earlier hlt => hfree earlier (by omega)]

end Guard

/-- If every jump taken without the guard leads beyond its own address, the run visits higher and
higher addresses and ends after at most 254 instructions, and the guarded run of the program ends
alike. -/
theorem forward_jumps_need_no_guard (config : Config) (sink : Sink) (image : Image)
    (h : (loaded (config.withRevisitGuard false) sink image).JumpsForward) :
    let unguarded := loaded (config.withRevisitGuard false) sink image
    let guarded := loaded (config.withRevisitGuard true) sink image
    ∃ last, unguarded.EndsAt last ∧
      (∀ earlier later, earlier < later → later ≤ last →
        (unguarded.stepped earlier).counter < (unguarded.stepped later).counter) ∧
      (unguarded.ending last).machine.steps ≤ 254 ∧
      unguarded.run = some (unguarded.ending last) ∧
      guarded.run = some ((unguarded.ending last).mapMachine
        (configure (config.withRevisitGuard true))) := by
  intro unguarded guarded
  obtain ⟨last, -, hends⟩ := h.exists_endsAt
  have hforward : guarded.unguard.JumpsForward := h
  have hbehind : guarded.OriginsBehind := originsBehind_loaded _ sink image
  obtain ⟨hguarded, hending⟩ := ending_of_unguard hforward hbehind hends
  refine ⟨last, hends, fun earlier later hlt hle => ?_, ?_, ?_, ?_⟩
  · exact h.counter_lt (hends.goesOn.mono hle) hlt
  · have hsteps := h.steps_ending_le rfl hends
    exact hsteps.trans (Nat.le_of_eq (Nat.zero_add 254))
  · exact run_eq_some_iff.mpr ⟨last, hends, rfl⟩
  · exact run_eq_some_iff.mpr ⟨last, hguarded, hending.symm⟩

/-- A jump from address 3 into its own operand, which spells the stop instruction. -/
def intoOperand : Image where
  program := [0x82, 1, 4, 0x54, 1]
  fits := by decide

/-- A program that jumps forward into an operand halts there, with the guard and without it. -/
theorem forward_jumps_need_no_guard_intoOperand :
    (loaded { revisitGuard := false } {} intoOperand).JumpsForward ∧
      ∃ turn, (loaded {} {} intoOperand).run = some turn ∧ turn.answer = .ok () ∧
        turn.machine.counter = 4 ∧ turn.machine.steps = 3 ∧ 3 ∈ turn.machine.origins := by
  have hends : (loaded { revisitGuard := false } {} intoOperand).EndsAt 2 :=
    ⟨by decide +kernel, by decide +kernel⟩
  have hforward : (loaded { revisitGuard := false } {} intoOperand).JumpsForward := by
    intro calls hgoes htakes
    have hle : calls ≤ 2 := by
      by_contra hmore
      exact hends.stops (hgoes 2 (by omega))
    have hall : ∀ calls ≤ 2,
        ((loaded { revisitGuard := false } {} intoOperand).stepped calls).takesJump = true →
          ((loaded { revisitGuard := false } {} intoOperand).stepped calls).counter <
            ((loaded { revisitGuard := false } {} intoOperand).stepped (calls + 1)).counter := by
      decide +kernel
    exact hall calls hle htakes
  obtain ⟨last, hlast, -, -, -, hrun⟩ := forward_jumps_need_no_guard {} {} intoOperand hforward
  rw [hlast.unique hends] at hrun
  exact ⟨hforward, _, hrun, by decide +kernel, by decide +kernel, by decide +kernel,
    by decide +kernel⟩

end ByteMachine.Machine
