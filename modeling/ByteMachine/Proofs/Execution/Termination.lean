import ByteMachine.Proofs.Execution.Stepping
import Mathlib.Data.Finset.Card
import Mathlib.Data.Finset.Range

/-!
# The guard ends every run

Backward jumps lower the program counter, so the counter alone bounds nothing. But a guarded
machine takes no second jump from one address: a step that goes on either uses up an address that
was no origin yet, or moves the counter up by at least two. The two together, the unused addresses
first, make a measure that every such step lowers.
-/

namespace ByteMachine

/-- Number of addresses that an instruction can be executed at, those below 254, that are not among
the origins. -/
def Origins.unused (origins : Origins) : Nat :=
  ((Finset.range 254).filter fun address => address ∉ origins).card

/-- No more addresses are unused than there are. -/
theorem Origins.unused_le (origins : Origins) : origins.unused ≤ 254 := by
  have h := Finset.card_filter_le (Finset.range 254) fun address => address ∉ origins
  rwa [Finset.card_range] at h

/-- A new origin uses up an address. -/
theorem Origins.unused_insert_lt {origins : Origins} {address : Nat}
    (hlt : address < 254) (hnew : address ∉ origins) :
    (origins.insert address).unused < origins.unused := by
  apply Finset.card_lt_card
  rw [Finset.ssubset_iff_of_subset]
  · refine ⟨address, ?_, ?_⟩
    · simp only [Finset.mem_filter, Finset.mem_range]
      exact ⟨hlt, hnew⟩
    · simp
  · intro other hother
    simp only [Finset.mem_filter, Finset.mem_range, mem_insert, not_or] at hother ⊢
    exact ⟨hother.1, hother.2.2⟩

namespace Machine

/-- Most instructions that can be executed one behind the other from an address on: each is two
bytes long or longer, and the last one starts below address 254. -/
def instructionsAhead (counter : Nat) : Nat :=
  (255 - counter) / 2

/-- From no address on are there more than 127 instructions. -/
theorem instructionsAhead_le (counter : Nat) :
    instructionsAhead counter ≤ 127 := by
  unfold instructionsAhead
  omega

/-- Bound on the steps that a guarded machine can still take and go on. -/
def guardMeasure (machine : Machine) : Nat :=
  127 * machine.origins.unused + instructionsAhead machine.counter

/-- A guarded step that goes on lowers the measure. -/
theorem guardMeasure_step_lt {machine : Machine} (hguard : machine.config.revisitGuard = true)
    (h : machine.step.answer = .ok .running) :
    machine.step.machine.guardMeasure < machine.guardMeasure := by
  have hcounter : machine.counter + 2 < 256 := (step_counts_of_running h).1
  have hahead := instructionsAhead_le machine.step.machine.counter
  unfold guardMeasure
  rcases step_moves h with ⟨horigins, hlow, -⟩ | ⟨horigins, -, hguarded⟩
  · rw [horigins]
    unfold instructionsAhead
    omega
  · have hnew : machine.counter ∉ machine.origins := fun hmem => hguarded ⟨hguard, hmem⟩
    have hunused := Origins.unused_insert_lt (by omega) hnew
    rw [horigins]
    unfold instructionsAhead at *
    omega

/-- A guarded machine ends within its measure. -/
theorem exists_endsAt_of_guard {machine : Machine} (hguard : machine.config.revisitGuard = true) :
    ∃ last ≤ machine.guardMeasure, machine.EndsAt last := by
  induction hmeasure : machine.guardMeasure using Nat.strongRecOn generalizing machine with
  | ind measure ih =>
    by_cases hfirst : machine.step.answer = .ok .running
    · have hlt := guardMeasure_step_lt hguard hfirst
      obtain ⟨last, hle, hends⟩ := ih _ (hmeasure ▸ hlt) (by rwa [step_config]) rfl
      exact ⟨last + 1, by omega, endsAt_succ_iff.mpr ⟨hfirst, hends⟩⟩
    · exact ⟨0, by omega, endsAt_zero_iff.mpr hfirst⟩

/-- The measure stays below the number of steps that a guarded run may take. -/
theorem guardMeasure_lt_guardedHorizon (machine : Machine) :
    machine.guardMeasure < guardedHorizon := by
  have hunused := machine.origins.unused_le
  have hahead := instructionsAhead_le machine.counter
  have hhorizon : guardedHorizon = 33024 := rfl
  unfold guardMeasure
  omega

end Machine

end ByteMachine
