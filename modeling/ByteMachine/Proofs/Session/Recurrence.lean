import ByteMachine.Proofs.Output.Printing
import ByteMachine.Proofs.Session.Induction

/-!
# What comes back comes back for ever

Without the guard and without a step limit, what a machine has on record of its past, the origins of
its jumps and the number of instructions it has counted, has no influence on what it answers,
computes or prints (`SameButRecords`). What it has printed has none either, as long as the sink has
no bound. A machine that comes back to a counter and registers that it had before is therefore alike
to what it was, so it goes on as it did then, prints the same again and never ends.
-/

namespace ByteMachine.Machine

namespace Alike

variable {first second : Machine}

/-- Likeness goes both ways. -/
theorem symm (h : Alike first second) : Alike second first where
  config := h.config.symm
  counter := h.counter.symm
  registers := h.registers.symm
  memory := h.memory.symm
  status := h.status.symm
  origins := fun hguard => (h.origins (h.config ▸ hguard)).symm
  steps := fun hlimit => (h.steps (h.config ▸ hlimit)).symm
  room := h.room.symm
  refusal := h.refusal.symm

/-- Machines alike are about to print the same. -/
theorem prints (h : Alike first second) {value : UInt8} (hprints : first.Prints value) :
    second.Prints value := by
  obtain ⟨a, b, hdispatches, hread⟩ := hprints
  exact ⟨a, b, h.dispatches hdispatches, h.registers ▸ hread⟩

/-- Machines alike leave their sinks alone, or they write the same line to them. -/
theorem step_sink (h : Alike first second) :
    (first.step.machine.sink = first.sink ∧ second.step.machine.sink = second.sink) ∨
      ∃ value, first.step.machine.sink = first.sink.write (Sink.line value) ∧
        second.step.machine.sink = second.sink.write (Sink.line value) := by
  rcases first.silent_or_prints with hsilent | ⟨value, hprints⟩
  · have hsecond : second.Silent := fun value hprints => hsilent value (h.symm.prints hprints)
    exact Or.inl ⟨hsilent.step_sink, hsecond.step_sink⟩
  · exact Or.inr ⟨value, hprints.step_sink, (h.prints hprints).step_sink⟩

/-- Machines alike print the same in one step. -/
theorem printed_step (h : Alike first second) :
    ∃ printed,
      first.step.machine.sink.contents.toList = first.sink.contents.toList ++ printed ∧
      second.step.machine.sink.contents.toList = second.sink.contents.toList ++ printed := by
  rcases h.step_sink with ⟨hfirst, hsecond⟩ | ⟨value, hfirst, hsecond⟩
  · exact ⟨[], by rw [hfirst, List.append_nil], by rw [hsecond, List.append_nil]⟩
  · refine ⟨first.sink.fitting (Sink.line value), ?_, ?_⟩
    · rw [hfirst, Sink.write_contents]
    · rw [hsecond, Sink.write_contents, Sink.fitting_eq_of_room h.room]

/-- Machines alike print the same however often they are stepped. -/
theorem printed_stepped (h : Alike first second) (calls : Nat) :
    ∃ printed,
      (first.stepped calls).sink.contents.toList = first.sink.contents.toList ++ printed ∧
      (second.stepped calls).sink.contents.toList = second.sink.contents.toList ++ printed := by
  induction calls with
  | zero => exact ⟨[], by simp, by simp⟩
  | succ calls ih =>
    obtain ⟨printed, hfirst, hsecond⟩ := ih
    obtain ⟨more, hfirst', hsecond'⟩ := (h.stepped calls).printed_step
    refine ⟨printed ++ more, ?_, ?_⟩
    · rw [stepped_succ, hfirst', hfirst, List.append_assoc]
    · rw [stepped_succ, hsecond', hsecond, List.append_assoc]

end Alike

/-- Two machines without the guard and without a step limit that differ in nothing but their
records: the origins of jumps and the number of instructions counted. -/
structure SameButRecords (first second : Machine) : Prop extends Alike first second where
  unguarded : first.config.revisitGuard = false
  unlimited : first.config.stepLimit = none
  stackPointer : second.stackPointer = first.stackPointer
  sink : second.sink = first.sink

namespace SameButRecords

variable {first second : Machine}

/-- Such a machine differs by its records from the same machine with other ones. -/
theorem of_records {machine : Machine} (hguard : machine.config.revisitGuard = false)
    (hlimit : machine.config.stepLimit = none) (origins : Origins) (steps : Nat) :
    machine.SameButRecords { machine with origins, steps } where
  config := rfl
  counter := rfl
  registers := rfl
  memory := rfl
  status := rfl
  origins := fun hguarded => absurd (hguard.symm.trans hguarded) Bool.false_ne_true
  steps := fun hlimited => absurd hlimit hlimited
  room := rfl
  refusal := rfl
  unguarded := hguard
  unlimited := hlimit
  stackPointer := rfl
  sink := rfl

/-- The second machine is the first one with other records. -/
theorem eq (h : first.SameButRecords second) :
    second = { first with origins := second.origins, steps := second.steps } := by
  rw [← h.config, ← h.counter, ← h.stackPointer, ← h.registers, ← h.memory, ← h.status, ← h.sink]

/-- Records make no difference to a step. -/
theorem lockstep : Lockstep SameButRecords := by
  intro first second h
  obtain ⟨hanswer, halike⟩ := h.toAlike.step
  obtain ⟨hconfig, -, hpointer, -⟩ := first.step_frame
  obtain ⟨-, -, hpointer', -⟩ := second.step_frame
  have hsink : second.step.machine.sink = first.step.machine.sink := by
    rcases h.step_sink with ⟨hfirst, hsecond⟩ | ⟨value, hfirst, hsecond⟩
    · rw [hfirst, hsecond, h.sink]
    · rw [hfirst, hsecond, h.sink]
  exact ⟨hanswer, { halike with
    unguarded := hconfig ▸ h.unguarded
    unlimited := hconfig ▸ h.unlimited
    stackPointer := by rw [hpointer', hpointer, h.stackPointer]
    sink := hsink }⟩

/-- Records do not show in the trace line. -/
theorem traceLine_eq (h : first.SameButRecords second) : second.traceLine = first.traceLine := by
  rw [h.eq]
  rfl

/-- Records make no difference to any command. -/
theorem obey (h : first.SameButRecords second) (command : Command) :
    (first.obey command = none ∧ second.obey command = none) ∨
      ∃ turn turn', first.obey command = some turn ∧ second.obey command = some turn' ∧
        turn'.answer = turn.answer ∧ turn.machine.SameButRecords turn'.machine := by
  cases command with
  | load image =>
    have hloaded : (second.load image).machine = (first.load image).machine := by
      rw [load_machine, load_machine, h.config, h.sink]
    have hsame : (first.load image).machine.SameButRecords (first.load image).machine :=
      @of_records (first.load image).machine h.unguarded h.unlimited .empty 0
    exact Or.inr ⟨_, _, rfl, rfl, rfl, hloaded ▸ hsame⟩
  | step =>
    obtain ⟨hanswer, hmachine⟩ := lockstep h
    exact Or.inr ⟨_, _, rfl, rfl, congrArg (Except.map Answer.status) hanswer, hmachine⟩
  | run =>
    unfold Machine.obey
    rcases lockstep.run h with ⟨hfirst, hsecond⟩ | ⟨turn, turn', hfirst, hsecond, hanswer, hmachine⟩
    · rw [hfirst, hsecond]
      exact Or.inl ⟨rfl, rfl⟩
    · rw [hfirst, hsecond]
      exact Or.inr ⟨_, _, rfl, rfl, congrArg (Except.map fun _ => Answer.done) hanswer, hmachine⟩
  | walk calls =>
    obtain ⟨hlines, hlast, hmachine⟩ := lockstep.walk (fun _ _ => traceLine_eq) h calls
    refine Or.inr ⟨_, _, rfl, rfl, ?_, hmachine⟩
    simp only [hlines, hlast]
  | readMemory address =>
    refine Or.inr ⟨_, _, rfl, rfl, ?_, h⟩
    simp only [Turn.map, readMemory, h.memory]
  | writeMemory address value =>
    refine Or.inr ⟨_, _, rfl, rfl, ?_⟩
    unfold writeMemory
    rw [h.memory]
    cases first.memory.write address value with
    | error fault => exact ⟨rfl, h⟩
    | ok memory => exact ⟨rfl, { h with memory := rfl }⟩
  | clearOutput =>
    have hcleared : second.sink.cleared = first.sink.cleared := by rw [h.sink]
    refine Or.inr ⟨_, _, rfl, rfl, rfl, { h with sink := hcleared, room := ?_, refusal := ?_ }⟩
    · exact congrArg Sink.room hcleared
    · exact congrArg Sink.refusal hcleared

/-- Records make no difference to any session. -/
theorem after (h : first.SameButRecords second) (session : List Command) :
    (first.after session = none ∧ second.after session = none) ∨
      ∃ later later', first.after session = some later ∧ second.after session = some later' ∧
        later.SameButRecords later' := by
  induction session generalizing first second with
  | nil => exact Or.inr ⟨first, second, rfl, rfl, h⟩
  | cons command session ih =>
    rw [after_cons, after_cons]
    rcases h.obey command with ⟨hfirst, hsecond⟩ | ⟨turn, turn', hfirst, hsecond, -, hmachine⟩
    · rw [hfirst, hsecond]
      exact Or.inl ⟨rfl, rfl⟩
    · rw [hfirst, hsecond]
      exact ih hmachine

/-- Records make no difference to what is answered. -/
theorem answer_obey (h : first.SameButRecords second) (command : Command) :
    (second.obey command).map Turn.answer = (first.obey command).map Turn.answer := by
  rcases h.obey command with ⟨hfirst, hsecond⟩ | ⟨turn, turn', hfirst, hsecond, hanswer, -⟩
  · rw [hfirst, hsecond]
  · rw [hfirst, hsecond, Option.map_some, Option.map_some, hanswer]

end SameButRecords

variable {machine : Machine}

/-- Without the guard, a limit and a bounded sink, a machine that comes back to a counter and to
registers is alike to what it was. -/
theorem GoesOn.alike (hguard : machine.config.revisitGuard = false)
    (hlimit : machine.config.stepLimit = none) (hunbounded : machine.sink.capacity = none)
    {i j : Nat} (hlt : i < j) (hgoes : machine.GoesOn j)
    (hcounter : (machine.stepped j).counter = (machine.stepped i).counter)
    (hregisters : (machine.stepped j).registers = (machine.stepped i).registers) :
    Alike (machine.stepped i) (machine.stepped j) := by
  obtain ⟨calls, rfl⟩ : ∃ calls, j = calls + 1 := ⟨j - 1, by omega⟩
  have hrunning : machine.status = .running := running_of_step (hgoes 0 (Nat.succ_pos calls))
  obtain ⟨hstatus, -⟩ := hgoes.counts hrunning
  obtain ⟨hstatus', -⟩ := (hgoes.mono hlt.le).counts hrunning
  have hroom (stage : Nat) : (machine.stepped stage).sink.room = none := by
    rw [Sink.room, (machine.stepped_sink stage).1, hunbounded, Option.map_none]
  refine alike_of_configuration hguard hlimit (hgoes.counter_le hlt.le) (hgoes.counter_le le_rfl)
    (hstatus.trans hstatus'.symm) ?_
  simp only [configuration, hcounter, hregisters, hroom]

/-- A machine that is alike to what it was some steps before goes on for ever. -/
theorem GoesOn.forever {i j : Nat} (hlt : i < j) (hgoes : machine.GoesOn j)
    (halike : Alike (machine.stepped i) (machine.stepped j)) (calls : Nat) :
    (machine.stepped calls).step.answer = .ok .running := by
  induction calls using Nat.strong_induction_on with
  | _ calls ih =>
    rcases Nat.lt_or_ge calls j with hearly | hlate
    · exact hgoes calls hearly
    · -- The step is answered as the one was that lies as many steps back as the two stages.
      have hanswer := (halike.stepped (calls - j)).step.1
      rw [stepped_add, stepped_add, Nat.add_sub_cancel' hlate] at hanswer
      exact hanswer.trans (ih (i + (calls - j)) (by omega))

/-- Without the guard and without a step limit, a machine that comes back to a counter and registers
repeats itself for ever. Origins and count of instructions never influence a session. -/
theorem repeated_configuration_loops (machine : Machine)
    (hguard : machine.config.revisitGuard = false) (hlimit : machine.config.stepLimit = none) :
    (machine.sink.capacity = none → ∀ i j, i < j → machine.GoesOn j →
      (machine.stepped j).counter = (machine.stepped i).counter →
      (machine.stepped j).registers = (machine.stepped i).registers →
      (∀ more,
        (machine.stepped (j + more)).counter = (machine.stepped (i + more)).counter ∧
        (machine.stepped (j + more)).registers = (machine.stepped (i + more)).registers ∧
        (machine.stepped (j + more)).memory = (machine.stepped (i + more)).memory ∧
        ∃ printed,
          (machine.stepped (i + more)).sink.contents.toList =
            (machine.stepped i).sink.contents.toList ++ printed ∧
          (machine.stepped (j + more)).sink.contents.toList =
            (machine.stepped j).sink.contents.toList ++ printed) ∧
      (∀ calls, (machine.stepped calls).step.answer = .ok .running) ∧
      machine.run = none) ∧
    ∀ (origins : Origins) (steps : Nat) (session : List Command),
      (machine.after session = none ∧
        ({ machine with origins, steps } : Machine).after session = none) ∨
      ∃ later later', machine.after session = some later ∧
        ({ machine with origins, steps } : Machine).after session = some later' ∧
        later' = { later with origins := later'.origins, steps := later'.steps } ∧
        ∀ command,
          (later'.obey command).map Turn.answer = (later.obey command).map Turn.answer := by
  refine ⟨fun hunbounded i j hlt hgoes hcounter hregisters => ?_, fun origins steps session => ?_⟩
  · have halike := GoesOn.alike hguard hlimit hunbounded hlt hgoes hcounter hregisters
    have hforever := GoesOn.forever hlt hgoes halike
    refine ⟨fun more => ?_, hforever, ?_⟩
    · have hlater := halike.stepped more
      obtain ⟨printed, hfirst, hsecond⟩ := halike.printed_stepped more
      simp only [stepped_add] at hlater hfirst hsecond
      exact ⟨hlater.counter, hlater.registers, hlater.memory, printed, hfirst, hsecond⟩
    · exact run_eq_none_iff.mpr fun calls earlier _ => hforever earlier
  · rcases (SameButRecords.of_records hguard hlimit origins steps).after session with
      hnone | ⟨later, later', hfirst, hsecond, hsame⟩
    · exact Or.inl hnone
    · exact Or.inr ⟨later, later', hfirst, hsecond, hsame.eq, hsame.answer_obey⟩

/-- A program that prints 7 in a loop stands at the same instruction with the same registers after
two and after four steps. -/
theorem repeated_configuration_loops_sevens :
    let start := loaded { revisitGuard := false } {}
      ⟨[0x82, 0, 7, 0x82, 1, 6, 0x47, 0, 0x54, 1], by decide⟩
    start.GoesOn 4 ∧ (start.stepped 2).sink.text = "" ∧ (start.stepped 4).sink.text = "7\n" ∧
      (start.stepped 4).registers = (start.stepped 2).registers ∧
      (∀ calls, (start.stepped calls).step.answer = .ok .running) ∧ start.run = none ∧
      ∃ later later', start.after [.walk 3] = some later ∧
        ({ start with steps := 9 } : Machine).after [.walk 3] = some later' ∧
        later' = { later with origins := later'.origins, steps := later'.steps } := by
  intro start
  have hgoes : start.GoesOn 4 := by decide +kernel
  have hcounter : (start.stepped 4).counter = (start.stepped 2).counter := by decide +kernel
  have hregisters : (start.stepped 4).registers = (start.stepped 2).registers := by decide +kernel
  obtain ⟨hloops, hrecords⟩ := repeated_configuration_loops start rfl rfl
  obtain ⟨-, hforever, hrun⟩ := hloops rfl 2 4 (by decide) hgoes hcounter hregisters
  refine ⟨hgoes, by decide +kernel, by decide +kernel, hregisters, hforever, hrun, ?_⟩
  rcases hrecords start.origins 9 [.walk 3] with
    ⟨hnone, -⟩ | ⟨later, later', hlater, hlater', hsame, -⟩
  · cases hnone
  · exact ⟨later, later', hlater, hlater', hsame⟩

end ByteMachine.Machine
