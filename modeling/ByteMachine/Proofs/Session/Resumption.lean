import ByteMachine.Proofs.Output.BoundedSink

/-!
# Stepping and running agree

A step that halts or fails can be tried again: it answers the same and changes nothing. For a fault
that leaves the machine as it was this is plain. A line that was refused has filled the sink up, so
that nothing of it is taken the second time. A machine can therefore be stepped any part of its way
by hand, even beyond its end, before it is run; and a run can be repeated.
-/

namespace ByteMachine

/-- A sink that has no room for a line is full after it has been written. -/
theorem Sink.le_size_write_of_not_fits {sink : Sink} {line : List Char}
    (h : sink.fits line = false) :
    ∃ capacity, (sink.write line).capacity = some capacity ∧
      capacity ≤ (sink.write line).contents.size := by
  obtain ⟨capacity, hcapacity, hlong⟩ := fits_eq_false_iff.mp h
  refine ⟨capacity, hcapacity, ?_⟩
  rw [write_size]
  simp only [fitting, hcapacity, List.length_take]
  omega

/-- What a turn answers and the machine it leaves; not what it reports. -/
def Turn.outcome {α : Type} (turn : Turn α) : Except Fault α × Machine :=
  (turn.answer, turn.machine)

namespace Machine

variable {machine : Machine}

/-- A step that fails does so again, and changes nothing more. -/
theorem step_again_of_fault {fault : Fault} (h : machine.step.answer = .error fault) :
    machine.step.machine.step.answer = .error fault ∧
      machine.step.machine.step.machine = machine.step.machine := by
  rcases machine.silent_or_prints with hsilent | ⟨value, hprints⟩
  · have hmachine := hsilent.step_of_fault h
    rw [hmachine]
    exact ⟨h, hmachine⟩
  · obtain ⟨rfl, hfits, hmachine⟩ := hprints.step_of_fault h
    obtain ⟨capacity, hcapacity, hfull⟩ := Sink.le_size_write_of_not_fits hfits
    rw [hmachine]
    exact (hprints.withSink _).step_of_full hcapacity hfull

/-- A step that does not go on comes out the same when it is tried again. -/
theorem step_again (h : machine.step.answer ≠ .ok .running) :
    machine.step.machine.step.outcome = machine.step.outcome := by
  cases hanswer : machine.step.answer with
  | error fault =>
    obtain ⟨hagain, hmachine⟩ := step_again_of_fault hanswer
    simp only [Turn.outcome, hagain, hmachine, hanswer]
  | ok status =>
    have hhalted : status = .halted := by
      cases status with
      | halted => rfl
      | running => exact absurd hanswer h
    have hstatus : machine.step.machine.status = .halted := by
      cases hbefore : machine.status with
      | halted => rw [step_halted hbefore, hbefore]
      | running => rw [(step_counts hbefore hanswer).2.1, hhalted]
    simp only [Turn.outcome, step_halted hstatus, hanswer, hhalted]

/-- A run comes out as its last step does. -/
theorem outcome_ending (machine : Machine) (last : Nat) :
    (machine.ending last).outcome =
      ((machine.stepped last).step.answer.map fun _ => (),
        (machine.stepped last).step.machine) := by
  rw [← stepped_succ]
  rfl

/-- A run comes out as it would have done if the machine had not been stepped before. -/
theorem EndsAt.outcome_run_stepped {last calls : Nat} (h : machine.EndsAt last)
    (hle : calls ≤ last) :
    (machine.stepped calls).run.map Turn.outcome = some (machine.ending last).outcome := by
  rw [run_eq_some_iff.mpr ⟨last - calls, h.stepped hle, rfl⟩, Option.map_some, outcome_ending,
    outcome_ending, stepped_add, Nat.add_sub_cancel' hle]

/-- A run that starts behind the end of another one comes out as that one did. -/
theorem EndsAt.outcome_run_again {last : Nat} (h : machine.EndsAt last) :
    (machine.stepped (last + 1)).run.map Turn.outcome = some (machine.ending last).outcome := by
  have hagain := step_again h.stops
  rw [← stepped_succ] at hagain
  obtain ⟨hanswer, hmachine⟩ := Prod.mk.inj hagain
  have hends : (machine.stepped (last + 1)).EndsAt 0 :=
    endsAt_zero_iff.mpr (hanswer ▸ h.stops)
  rw [run_eq_some_iff.mpr ⟨0, hends, rfl⟩, Option.map_some, outcome_ending, outcome_ending,
    stepped_zero, hanswer, hmachine]

/-- A walk that goes before a run makes no difference to it. -/
theorem outcome_run_walk (machine : Machine) (calls : Nat) :
    (machine.walk calls).machine.run.map Turn.outcome = machine.run.map Turn.outcome := by
  rcases machine.walk_cases calls with ⟨hgoes, hwalk⟩ | ⟨last, -, hends, hwalk⟩
  · rw [hwalk]
    cases hrun : machine.run with
    | none =>
      have hall := run_eq_none_iff.mp hrun
      have hnone : (machine.stepped calls).run = none := by
        refine run_eq_none_iff.mpr fun more earlier hlt => ?_
        rw [stepped_add]
        exact hall (calls + earlier + 1) (calls + earlier) (Nat.lt_succ_self _)
      rw [hnone]
    | some turn =>
      obtain ⟨last, hends, rfl⟩ := run_eq_some_iff.mp hrun
      have hle : calls ≤ last := by
        by_contra hlt
        exact hends.stops (hgoes last (by omega))
      exact hends.outcome_run_stepped hle
  · rw [hwalk, hends.outcome_run_again, run_eq_some_iff.mpr ⟨last, hends, rfl⟩, Option.map_some]

/-- A machine with a step limit ends. -/
theorem exists_endsAt_of_limit {limit : Nat} (h : machine.config.stepLimit = some limit) :
    ∃ last, machine.EndsAt last := by
  by_contra hnever
  have hgoes : machine.GoesOn (limit + 1) := by
    by_contra hstops
    obtain ⟨last, -, hends⟩ := exists_endsAt hstops
    exact hnever ⟨last, hends⟩
  have hrunning : machine.status = .running := running_of_step (hgoes 0 (Nat.succ_pos _))
  obtain ⟨hstatus, hsteps⟩ := (hgoes.mono (Nat.le_succ limit)).counts hrunning
  have hexceeded := step_limit hstatus (by rw [stepped_config, h]) (by omega : limit ≤ _)
  have hlast := hgoes limit (Nat.lt_succ_self limit)
  rw [hexceeded] at hlast
  cases hlast

/-- Under the guard or a step limit a machine ends. -/
theorem exists_endsAt_of_bounded (h : machine.config.revisitGuard = true ∨
    ∃ limit, machine.config.stepLimit = some limit) : ∃ last, machine.EndsAt last := by
  rcases h with hguard | ⟨limit, hlimit⟩
  · obtain ⟨last, -, hends⟩ := exists_endsAt_of_guard hguard
    exact ⟨last, hends⟩
  · exact exists_endsAt_of_limit hlimit

/-- However often a machine that the guard or a step limit stops is first stepped by hand, a run
then ends as a run alone does. A second run changes nothing and gives the same answer. -/
theorem stepping_and_running_agree (machine : Machine) (calls : Nat)
    (hbounded : machine.config.revisitGuard = true ∨
      ∃ limit, machine.config.stepLimit = some limit) :
    ∃ alone resumed again : Turn Unit,
      machine.run = some alone ∧
      (machine.walk calls).machine.run = some resumed ∧
      resumed.answer = alone.answer ∧ resumed.machine = alone.machine ∧
      alone.machine.run = some again ∧
      again.answer = alone.answer ∧ again.machine = alone.machine := by
  obtain ⟨last, hends⟩ := exists_endsAt_of_bounded hbounded
  have hrun : machine.run = some (machine.ending last) := run_eq_some_iff.mpr ⟨last, hends, rfl⟩
  have hwalk := outcome_run_walk machine calls
  rw [hrun, Option.map_some, Option.map_eq_some_iff] at hwalk
  obtain ⟨resumed, hresumed, hsame⟩ := hwalk
  obtain ⟨again, hagain, hrepeated⟩ := Option.map_eq_some_iff.mp hends.outcome_run_again
  obtain ⟨hanswer, hmachine⟩ := Prod.mk.inj hsame
  obtain ⟨hanswer', hmachine'⟩ := Prod.mk.inj hrepeated
  exact ⟨machine.ending last, resumed, again, hrun, hresumed, hanswer, hmachine, hagain, hanswer',
    hmachine'⟩

/-- With room for six characters the second line is cut. A run behind a walk that was over with the
refused line, and a second run, find the sink full and leave it so. -/
theorem stepping_and_running_agree_largestTwice :
    let start := loaded {} { capacity := some 6, refusal := .nothingAccepted } largestTwice
    ∃ alone resumed again : Turn Unit,
      start.run = some alone ∧ alone.answer = .error (.output .nothingAccepted) ∧
      alone.machine.sink.text = "255\n25" ∧
      (start.walk 9).machine.run = some resumed ∧
      resumed.answer = alone.answer ∧ resumed.machine = alone.machine ∧
      alone.machine.run = some again ∧
      again.answer = alone.answer ∧ again.machine = alone.machine := by
  intro start
  obtain ⟨alone, resumed, again, halone, hagree⟩ :=
    stepping_and_running_agree start 9 (Or.inl rfl)
  have hseen : start.run.map (fun turn => (turn.answer, turn.machine.sink.text)) =
      some (.error (.output .nothingAccepted), "255\n25") := by
    decide +kernel
  rw [halone, Option.map_some] at hseen
  obtain ⟨hfault, htext⟩ := Prod.mk.inj (Option.some.inj hseen)
  exact ⟨alone, resumed, again, halone, hfault, htext, hagree⟩

end Machine

end ByteMachine
