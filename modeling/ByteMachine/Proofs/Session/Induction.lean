import ByteMachine.Machine.Session
import ByteMachine.Proofs.Execution.Horizon

/-!
# Induction over sessions

A command loads a program, takes a number of steps, replaces the memory or empties the sink:
`Change` lists no more than that, since runs and walks are rows of steps. A property that no change
can break is kept by a session (`after_induction`). Two machines are in `Lockstep` under a relation
that a step keeps while it answers both of them alike; runs and walks then answer them alike, too.
-/

namespace ByteMachine.Machine

/-- What a command can make of a machine. -/
inductive Change (machine : Machine) : Command → Machine → Prop where
  | loaded (image : Image) : Change machine (.load image) (machine.load image).machine
  | stepped (command : Command) (calls : Nat) : Change machine command (machine.stepped calls)
  | written (address : Nat) (value : UInt8) (memory : Memory) :
      Change machine (.writeMemory address value) { machine with memory }
  | cleared : Change machine .clearOutput machine.clearOutput

/-- Every command makes one of these changes. -/
theorem change_of_obey {machine : Machine} {command : Command} {turn : Turn Answer}
    (h : machine.obey command = some turn) : machine.Change command turn.machine := by
  cases command with
  | load image =>
    cases h
    exact .loaded image
  | step =>
    cases h
    exact .stepped .step 1
  | run =>
    obtain ⟨turn, hrun, rfl⟩ := Option.map_eq_some_iff.mp h
    obtain ⟨last, -, rfl⟩ := run_eq_some_iff.mp hrun
    exact .stepped .run (last + 1)
  | walk calls =>
    cases h
    rcases machine.walk_cases calls with ⟨-, hmachine⟩ | ⟨last, -, -, hmachine⟩
    · exact hmachine ▸ .stepped (.walk calls) calls
    · exact hmachine ▸ .stepped (.walk calls) (last + 1)
  | readMemory address =>
    cases h
    exact .stepped (.readMemory address) 0
  | writeMemory address value =>
    cases h
    unfold writeMemory
    cases machine.memory.write address value with
    | error fault => exact .stepped (.writeMemory address value) 0
    | ok memory => exact .written address value memory
  | clearOutput =>
    cases h
    exact .cleared

/-- What the changes made in a session keep holds after it. -/
theorem after_induction {P : Machine → Prop} {session : List Command} {machine later : Machine}
    (keeps : ∀ command ∈ session, ∀ before after : Machine,
      before.Change command after → P before → P after)
    (hafter : machine.after session = some later) (h : P machine) : P later := by
  induction session generalizing machine with
  | nil =>
    cases hafter
    exact h
  | cons command session ih =>
    rw [after_cons] at hafter
    obtain ⟨turn, hobeyed, hrest⟩ := Option.bind_eq_some_iff.mp hafter
    refine ih (fun other hmem => keeps other (List.mem_cons_of_mem command hmem)) hrest ?_
    exact keeps command List.mem_cons_self machine turn.machine (change_of_obey hobeyed) h

/-- The configuration outlasts every session. -/
theorem after_config {session : List Command} {machine later : Machine}
    (hafter : machine.after session = some later) : later.config = machine.config := by
  apply after_induction (P := fun other => other.config = machine.config) _ hafter rfl
  intro command _ before after hchange hconfig
  cases hchange with
  | stepped command calls => rw [stepped_config, hconfig]
  | _ => exact hconfig

/-- What a step keeps holds after any number of steps. -/
theorem stepped_induction {P : Machine → Prop}
    (keeps : ∀ machine, P machine → P machine.step.machine)
    {machine : Machine} (h : P machine) (calls : Nat) : P (machine.stepped calls) := by
  induction calls with
  | zero => exact h
  | succ calls ih =>
    rw [stepped_succ]
    exact keeps _ ih

/-- A step answers machines alike that are related, and keeps them related. -/
def Lockstep (Related : Machine → Machine → Prop) : Prop :=
  ∀ ⦃first second⦄, Related first second →
    second.step.answer = first.step.answer ∧ Related first.step.machine second.step.machine

namespace Lockstep

variable {Related : Machine → Machine → Prop} {first second : Machine}

/-- Machines in lockstep stay related however often they are stepped. -/
theorem stepped (h : Lockstep Related) (hrelated : Related first second) (calls : Nat) :
    Related (first.stepped calls) (second.stepped calls) := by
  induction calls with
  | zero => exact hrelated
  | succ calls ih =>
    rw [stepped_succ, stepped_succ]
    exact (h ih).2

/-- Machines in lockstep answer every step alike. -/
theorem answer_eq (h : Lockstep Related) (hrelated : Related first second) (calls : Nat) :
    (second.stepped calls).step.answer = (first.stepped calls).step.answer :=
  (h (h.stepped hrelated calls)).1

/-- Machines in lockstep go on for the same numbers of steps. -/
theorem goesOn_iff (h : Lockstep Related) (hrelated : Related first second) {calls : Nat} :
    second.GoesOn calls ↔ first.GoesOn calls := by
  unfold GoesOn
  simp only [h.answer_eq hrelated]

/-- Machines in lockstep end at the same step. -/
theorem endsAt (h : Lockstep Related) (hrelated : Related first second) {last : Nat}
    (hends : first.EndsAt last) : second.EndsAt last where
  goesOn := (h.goesOn_iff hrelated).mpr hends.goesOn
  stops := h.answer_eq hrelated last ▸ hends.stops

/-- Machines in lockstep run alike, or neither run ends. -/
theorem run (h : Lockstep Related) (hrelated : Related first second) :
    (first.run = none ∧ second.run = none) ∨
      ∃ turn turn', first.run = some turn ∧ second.run = some turn' ∧
        turn'.answer = turn.answer ∧ Related turn.machine turn'.machine := by
  cases hrun : first.run with
  | none =>
    have hgoes := run_eq_none_iff.mp hrun
    exact Or.inl ⟨rfl, run_eq_none_iff.mpr fun calls => (h.goesOn_iff hrelated).mpr (hgoes calls)⟩
  | some turn =>
    obtain ⟨last, hends, rfl⟩ := run_eq_some_iff.mp hrun
    refine Or.inr ⟨_, second.ending last, rfl, ?_, ?_, h.stepped hrelated (last + 1)⟩
    · exact run_eq_some_iff.mpr ⟨last, h.endsAt hrelated hends, rfl⟩
    · simp only [ending, h.answer_eq hrelated]

/-- Machines in lockstep that have the same trace lines walk alike. -/
theorem walk (h : Lockstep Related)
    (htrace : ∀ ⦃first second⦄, Related first second → second.traceLine = first.traceLine)
    (hrelated : Related first second) (calls : Nat) :
    (second.walk calls).lines = (first.walk calls).lines ∧
      (second.walk calls).last = (first.walk calls).last ∧
      Related (first.walk calls).machine (second.walk calls).machine := by
  induction calls generalizing first second with
  | zero => exact ⟨rfl, rfl, hrelated⟩
  | succ calls ih =>
    obtain ⟨hanswer, hnext⟩ := h hrelated
    by_cases hfirst : first.step.answer = .ok .running
    · obtain ⟨hlines, hlast, hmachine⟩ := ih hnext
      rw [walk_succ_of_running hfirst, walk_succ_of_running (hanswer.trans hfirst)]
      exact ⟨by rw [htrace hrelated, hlines], by rw [hlast], hmachine⟩
    · rw [walk_succ_of_stops hfirst, walk_succ_of_stops (hanswer ▸ hfirst)]
      exact ⟨by rw [htrace hrelated], by rw [hanswer], hnext⟩

end Lockstep

end ByteMachine.Machine
