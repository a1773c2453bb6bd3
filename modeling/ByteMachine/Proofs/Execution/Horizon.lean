import ByteMachine.Proofs.Execution.Alike
import ByteMachine.Proofs.Execution.Termination
import Mathlib.Data.Fintype.BigOperators
import Mathlib.Data.Fintype.Pigeonhole
import Mathlib.Data.Fintype.Pi

/-!
# A run finds its end

A run is bounded by a horizon, and `run_eq_some_iff` says that the bound hides nothing: a run has an
answer exactly when some row of steps comes to an end, and it is the answer of that row. A step
limit and the guard bound a run directly. Without either, a machine that comes back to the same
counter, registers and room in the sink is alike to what it was, so it never ends; and there are
only so many ways for these to differ.
-/

namespace ByteMachine

namespace Sink

/-- A write keeps the capacity of a sink and the way it refuses, and leaves no more room than
before. -/
theorem Follows.frame {before after : Sink} (h : before.Follows after) :
    after.capacity = before.capacity ∧ after.refusal = before.refusal ∧
      after.room.getD 0 ≤ before.room.getD 0 := by
  rcases h with rfl | ⟨value, rfl⟩
  · exact ⟨rfl, rfl, le_rfl⟩
  · refine ⟨rfl, rfl, ?_⟩
    rw [room_write]
    cases before.room with
    | none => exact le_rfl
    | some room => exact Nat.sub_le _ _

end Sink

namespace Machine

variable {machine : Machine}

/-- A machine below its limit after the steps that go on has counted less than the limit. -/
theorem EndsAt.le_of_stepLimit {last limit : Nat} (h : machine.EndsAt last)
    (hlimit : machine.config.stepLimit = some limit) : last ≤ limit - machine.steps := by
  cases last with
  | zero => exact Nat.zero_le _
  | succ calls =>
    have hanswer := h.goesOn calls (by omega)
    have hrunning : machine.status = .running := running_of_step (h.goesOn 0 (by omega))
    obtain ⟨hstatus, hsteps⟩ := (h.goesOn.mono (Nat.le_succ calls)).counts hrunning
    have hbelow : (machine.stepped calls).steps < limit := by
      by_contra hreached
      rw [step_limit hstatus (by rw [stepped_config, hlimit]) (by omega)] at hanswer
      cases hanswer
    omega

/-- A machine that goes on at all stays within memory, or just behind it. -/
theorem GoesOn.counter_le {calls : Nat} (h : machine.GoesOn (calls + 1)) {earlier : Nat}
    (hle : earlier ≤ calls + 1) : (machine.stepped earlier).counter ≤ memorySize := by
  rcases by omega with hlt | rfl : earlier < calls + 1 ∨ earlier = calls + 1
  · have hcounter := (step_counts_of_running (h earlier hlt)).1
    omega
  · have hlast := h calls (by omega)
    have hcounter := (step_counts_of_running hlast).1
    rw [stepped_succ]
    rcases step_moves hlast with ⟨-, -, hhigh⟩ | ⟨-, hlow, -⟩
    · omega
    · omega

/-- The capacity of the sink and the way it refuses outlast any number of steps, and the room in it
never grows. -/
theorem stepped_sink (machine : Machine) (calls : Nat) :
    (machine.stepped calls).sink.capacity = machine.sink.capacity ∧
      (machine.stepped calls).sink.refusal = machine.sink.refusal ∧
        (machine.stepped calls).sink.room.getD 0 ≤ machine.sink.room.getD 0 := by
  induction calls with
  | zero => exact ⟨rfl, rfl, le_rfl⟩
  | succ calls ih =>
    obtain ⟨hcapacity, hrefusal, hroom⟩ := ih
    obtain ⟨hcapacity', hrefusal', hroom'⟩ := (machine.stepped calls).step_follows.frame
    rw [stepped_succ]
    exact ⟨hcapacity'.trans hcapacity, hrefusal'.trans hrefusal, hroom'.trans hroom⟩

end Machine

/-- There are four flags. -/
instance : Fintype Flags where
  elems := {.none, .equal, .less, .greater}
  complete flags := by cases flags <;> decide

namespace Machine

/-- What tells apart the machines of one unguarded and unlimited run: the counter, the flag, the
registers and the room in the sink. -/
abbrev Configuration (room : Nat) : Type :=
  Fin (memorySize + 1) × Flags × (Fin registerCount → Fin 256) × Fin (room + 1)

/-- The configuration of a machine whose sink never had more than the given room. -/
def configuration (room : Nat) (machine : Machine) : Configuration room :=
  (⟨machine.counter % (memorySize + 1), Nat.mod_lt _ (Nat.succ_pos _)⟩,
    machine.registers.flags,
    fun place => (machine.registers.cells.get place).toFin,
    ⟨machine.sink.room.getD 0 % (room + 1), Nat.mod_lt _ (Nat.succ_pos _)⟩)

/-- The number of configurations. -/
theorem card_configuration (room : Nat) :
    Fintype.card (Configuration room) = configurations * (room + 1) := by
  have hflags : Fintype.card Flags = 4 := rfl
  simp only [Configuration, Fintype.card_prod, Fintype.card_fin, Fintype.card_pi,
    Finset.prod_const, Finset.card_univ, hflags]
  change _ = (memorySize + 1) * 4 * 256 ^ registerCount * (room + 1)
  simp only [Nat.mul_assoc]

/-- Two stages of one unguarded and unlimited run with one configuration are alike. -/
theorem alike_of_configuration {machine : Machine} (hguard : machine.config.revisitGuard = false)
    (hlimit : machine.config.stepLimit = none) {first second : Nat}
    (hfirst : (machine.stepped first).counter ≤ memorySize)
    (hsecond : (machine.stepped second).counter ≤ memorySize)
    (hstatus : (machine.stepped second).status = (machine.stepped first).status)
    (h : (machine.stepped first).configuration (machine.sink.room.getD 0) =
      (machine.stepped second).configuration (machine.sink.room.getD 0)) :
    Alike (machine.stepped first) (machine.stepped second) := by
  obtain ⟨hcapacity₁, hrefusal₁, hroom₁⟩ := machine.stepped_sink first
  obtain ⟨hcapacity₂, hrefusal₂, hroom₂⟩ := machine.stepped_sink second
  simp only [configuration, Prod.mk.injEq, Fin.ext_iff, funext_iff] at h
  obtain ⟨hcounter, hflags, hcells, hroom⟩ := h
  rw [Nat.mod_eq_of_lt (by omega), Nat.mod_eq_of_lt (by omega)] at hcounter hroom
  refine ⟨?_, hcounter.symm, ?_, ?_, hstatus, ?_, ?_, ?_, ?_⟩
  · rw [stepped_config, stepped_config]
  · apply Registers.ext
    · apply Vector.ext
      intro place hplace
      exact (UInt8.toNat_inj.mp (hcells ⟨place, hplace⟩)).symm
    · exact hflags.symm
  · rw [stepped_memory, stepped_memory]
  · intro hguarded
    rw [stepped_config, hguard] at hguarded
    cases hguarded
  · intro hlimited
    rw [stepped_config] at hlimited
    exact absurd hlimit hlimited
  · unfold Sink.room at hroom ⊢
    rw [hcapacity₁, hcapacity₂] at *
    cases hcapacity : machine.sink.capacity with
    | none => rfl
    | some capacity =>
      simp only [hcapacity, Option.map_some, Option.getD_some] at hroom ⊢
      rw [hroom]
  · rw [hrefusal₁, hrefusal₂]

/-- Without a guard and a limit, a run that ends at all does so before its configurations could
repeat. -/
theorem EndsAt.lt_configurations {machine : Machine} {last : Nat} (h : machine.EndsAt last)
    (hguard : machine.config.revisitGuard = false) (hlimit : machine.config.stepLimit = none) :
    last < configurations * (machine.sink.room.getD 0 + 1) + 1 := by
  by_contra hmany
  obtain ⟨calls, rfl⟩ : ∃ calls, last = calls + 1 := ⟨last - 1, by omega⟩
  have hrunning : machine.status = .running := running_of_step (h.goesOn 0 (by omega))
  have hstatus (stage : Nat) (hle : stage ≤ calls + 1) :
      (machine.stepped stage).status = .running :=
    ((h.goesOn.mono hle).counts hrunning).1
  have hcard : Fintype.card (Configuration (machine.sink.room.getD 0)) <
      Fintype.card (Fin (calls + 1 + 1)) := by
    rw [card_configuration, Fintype.card_fin]
    omega
  obtain ⟨i, j, hne, hsame⟩ := Fintype.exists_ne_map_eq_of_card_lt
    (fun stage : Fin (calls + 1 + 1) =>
      (machine.stepped stage).configuration (machine.sink.room.getD 0)) hcard
  -- From a repeated configuration on, the run answers as it did before: it cannot end.
  have hrepeats (first second : Nat) (hlt : first < second) (hle : second ≤ calls + 1)
      (hsame : (machine.stepped first).configuration (machine.sink.room.getD 0) =
        (machine.stepped second).configuration (machine.sink.room.getD 0)) : False := by
    have halike := alike_of_configuration hguard hlimit
      (h.goesOn.counter_le (by omega)) (h.goesOn.counter_le hle)
      ((hstatus second hle).trans (hstatus first (by omega)).symm) hsame
    have hanswer := (halike.stepped (calls + 1 - second)).step.1
    rw [stepped_add, stepped_add, Nat.add_sub_cancel' hle] at hanswer
    exact h.stops (hanswer.trans (h.goesOn (first + (calls + 1 - second)) (by omega)))
  rcases Nat.lt_or_gt_of_ne (Fin.val_ne_of_ne hne) with hlt | hlt
  · exact hrepeats i j hlt (by omega) hsame
  · exact hrepeats j i hlt (by omega) hsame.symm

/-- The horizon of a run lies behind its end. -/
theorem EndsAt.lt_horizon {machine : Machine} {last : Nat} (h : machine.EndsAt last) :
    last < machine.horizon := by
  unfold horizon
  cases hlimit : machine.config.stepLimit with
  | some limit =>
    have hle := h.le_of_stepLimit hlimit
    exact Nat.lt_succ_of_le hle
  | none =>
    by_cases hguard : machine.config.revisitGuard = true
    · obtain ⟨found, hle, hfound⟩ := exists_endsAt_of_guard hguard
      rw [h.unique hfound]
      exact (if_pos hguard).symm ▸ Nat.lt_of_le_of_lt hle machine.guardMeasure_lt_guardedHorizon
    · have hroom : machine.sink.capacity.elim 0 (· - machine.sink.contents.size) =
          machine.sink.room.getD 0 := by
        unfold Sink.room
        cases machine.sink.capacity <;> rfl
      simp only [if_neg hguard, hroom]
      exact h.lt_configurations (by simpa using hguard) hlimit

/-- A run has an answer exactly when a row of steps comes to an end, and it is the answer of that
row. -/
theorem run_eq_some_iff {machine : Machine} {turn : Turn Unit} :
    machine.run = some turn ↔ ∃ last, machine.EndsAt last ∧ turn = machine.ending last := by
  rw [run, runFor_eq_some_iff]
  refine ⟨fun h => ?_, fun h => ?_⟩
  · obtain ⟨last, -, h⟩ := h
    exact ⟨last, h⟩
  · obtain ⟨last, hends, hturn⟩ := h
    exact ⟨last, hends.lt_horizon, hends, hturn⟩

/-- A run has no answer exactly when all its steps go on. -/
theorem run_eq_none_iff {machine : Machine} :
    machine.run = none ↔ ∀ calls, machine.GoesOn calls := by
  refine ⟨fun h calls => ?_, fun h => ?_⟩
  · by_contra hstops
    obtain ⟨last, -, hends⟩ := exists_endsAt hstops
    rw [run_eq_some_iff.mpr ⟨last, hends, rfl⟩] at h
    cases h
  · rw [Option.eq_none_iff_forall_ne_some]
    intro turn hturn
    obtain ⟨last, hends, -⟩ := run_eq_some_iff.mp hturn
    exact hends.stops (h (last + 1) last (by omega))

end Machine

end ByteMachine
