import ByteMachine.Proofs.Session.Induction

/-!
# The steps of a session

A session takes steps one by one, in runs and in walks, and in between it may write to the memory or
empty the sink. Its trail lists the machines that it steps, each as it is just before, so that a
state can be compared with all that was executed on the way to it. A property of a trail and the
machine behind it that every step keeps is kept by a session (`trail_induction`).
-/

namespace ByteMachine.Machine

/-- The machines that a row of at most `calls` steps comes through, up to the first one whose step
does not go on. -/
def stages (calls : Nat) (machine : Machine) : List Machine :=
  match calls with
  | 0 => []
  | calls + 1 =>
    machine ::
      if machine.step.answer = .ok .running then stages calls machine.step.machine else []

/-- The machines that a command steps. A run takes steps until one does not go on, which is within
its horizon if it ever happens. -/
def steppedBy (machine : Machine) : Command → List Machine
  | .step => [machine]
  | .run => machine.stages machine.horizon
  | .walk calls => machine.stages calls
  | .load _ | .readMemory _ | .writeMemory _ _ | .clearOutput => []

/-- The machines that a session steps, the earliest first. -/
def trail (machine : Machine) : List Command → List Machine
  | [] => []
  | command :: session =>
    machine.steppedBy command ++
      (machine.obey command).elim [] fun turn => turn.machine.trail session

variable {machine : Machine}

/-- A run leads where a walk of as many steps leads. -/
theorem run_machine_eq {turn : Turn Unit} (h : machine.run = some turn) :
    turn.machine = (machine.walk machine.horizon).machine := by
  obtain ⟨last, hlt, hends, rfl⟩ := runFor_eq_some_iff.mp h
  exact (hends.walk_machine hlt).symm

section Keeps

/-! A property of what has been stepped and of the machine behind it, kept by every step. -/

variable {P : List Machine → Machine → Prop}
  (hstep : ∀ past machine, P past machine → P (past ++ [machine]) machine.step.machine)

include hstep

/-- A walk keeps it. -/
theorem stages_induction {past : List Machine} (h : P past machine) (calls : Nat) :
    P (past ++ machine.stages calls) (machine.walk calls).machine := by
  induction calls generalizing past machine with
  | zero => simpa [stages, walk] using h
  | succ calls ih =>
    have hnext := hstep past machine h
    rw [stages]
    by_cases hfirst : machine.step.answer = .ok .running
    · rw [walk_succ_of_running hfirst, if_pos hfirst, List.append_cons]
      exact ih hnext
    · rw [walk_succ_of_stops hfirst, if_neg hfirst]
      exact hnext

/-- A command that loads no program keeps it, if writing to the memory and emptying the sink do. -/
theorem steppedBy_induction {command : Command} (hcommand : ∀ image, command ≠ .load image)
    (hwritten : ∀ address value, command = .writeMemory address value →
      ∀ past machine memory, P past machine → P past { machine with memory })
    (hcleared : ∀ past machine, P past machine → P past machine.clearOutput)
    {past : List Machine} {turn : Turn Answer} (hobeyed : machine.obey command = some turn)
    (h : P past machine) : P (past ++ machine.steppedBy command) turn.machine := by
  cases command with
  | load image => exact absurd rfl (hcommand image)
  | step =>
    cases hobeyed
    exact hstep past machine h
  | run =>
    obtain ⟨turn, hrun, rfl⟩ := Option.map_eq_some_iff.mp hobeyed
    have hkept := stages_induction hstep h machine.horizon
    rwa [← run_machine_eq hrun] at hkept
  | walk calls =>
    cases hobeyed
    exact stages_induction hstep h calls
  | readMemory address =>
    cases hobeyed
    rw [steppedBy, List.append_nil]
    exact h
  | writeMemory address value =>
    cases hobeyed
    rw [steppedBy, List.append_nil]
    unfold writeMemory
    cases machine.memory.write address value with
    | error fault => exact h
    | ok memory => exact hwritten address value rfl past machine memory h
  | clearOutput =>
    cases hobeyed
    rw [steppedBy, List.append_nil]
    exact hcleared past machine h

/-- A session that loads no program keeps it, if writing to the memory and emptying the sink do. -/
theorem trail_induction {session : List Command} (hsession : ∀ image, .load image ∉ session)
    (hwritten : ∀ address value, .writeMemory address value ∈ session →
      ∀ past machine memory, P past machine → P past { machine with memory })
    (hcleared : ∀ past machine, P past machine → P past machine.clearOutput)
    {past : List Machine} {later : Machine} (hafter : machine.after session = some later)
    (h : P past machine) : P (past ++ machine.trail session) later := by
  induction session generalizing machine past with
  | nil =>
    cases hafter
    rwa [trail, List.append_nil]
  | cons command session ih =>
    rw [after_cons] at hafter
    obtain ⟨turn, hobeyed, hrest⟩ := Option.bind_eq_some_iff.mp hafter
    have hnext : P (past ++ machine.steppedBy command) turn.machine := by
      refine steppedBy_induction hstep ?_ ?_ hcleared hobeyed h
      · rintro image rfl
        exact hsession image List.mem_cons_self
      · rintro address value rfl
        exact hwritten address value List.mem_cons_self
    rw [trail, hobeyed, Option.elim_some, ← List.append_assoc]
    refine ih ?_ ?_ hrest hnext
    · exact fun image hmem => hsession image (List.mem_cons_of_mem command hmem)
    · exact fun address value hmem => hwritten address value (List.mem_cons_of_mem command hmem)

end Keeps

end ByteMachine.Machine
