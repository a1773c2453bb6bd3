import ByteMachine.Machine.Run
import ByteMachine.Proofs.Execution.Step
import Mathlib.Data.List.Basic
import Mathlib.Logic.Function.Iterate
import Mathlib.Order.Basic

/-!
# Steps in a row

A machine can be stepped any number of times, whatever its steps answer. A run is such a row of
steps: all but the last one go on, and the last one does not. `EndsAt` says how many go on, and
`runFor_eq_some_iff` that a bounded run finds exactly that end.
-/

namespace ByteMachine

/-- The same turn with another machine. -/
def Turn.mapMachine {α : Type} (f : Machine → Machine) (turn : Turn α) : Turn α :=
  { turn with machine := f turn.machine }

/-- What is reported before a turn has nothing to do with its machine. -/
theorem Turn.mapMachine_reporting {α : Type} (f : Machine → Machine) (earlier : List Event)
    (turn : Turn α) :
    (turn.reporting earlier).mapMachine f = (turn.mapMachine f).reporting earlier := rfl

namespace Machine

/-- The machine after a number of steps, whatever they answered. -/
def stepped (calls : Nat) (machine : Machine) : Machine :=
  (fun machine => machine.step.machine)^[calls] machine

/-- No step at all. -/
@[simp] theorem stepped_zero (machine : Machine) : machine.stepped 0 = machine := rfl

/-- One more step at the end. -/
theorem stepped_succ (machine : Machine) (calls : Nat) :
    machine.stepped (calls + 1) = (machine.stepped calls).step.machine :=
  Function.iterate_succ_apply' _ _ _

/-- One more step at the beginning. -/
theorem stepped_step (machine : Machine) (calls : Nat) :
    machine.step.machine.stepped calls = machine.stepped (calls + 1) := rfl

/-- Rows of steps behind each other are one row. -/
theorem stepped_add (machine : Machine) (first second : Nat) :
    (machine.stepped first).stepped second = machine.stepped (first + second) := by
  rw [Nat.add_comm]
  exact (Function.iterate_add_apply _ second first machine).symm

/-- The first `calls` steps all go on. -/
def GoesOn (machine : Machine) (calls : Nat) : Prop :=
  ∀ earlier < calls, (machine.stepped earlier).step.answer = .ok .running

instance (machine : Machine) (calls : Nat) : Decidable (machine.GoesOn calls) :=
  inferInstanceAs (Decidable (∀ earlier < calls, _))

/-- The first `calls` steps go on and the next one does not. -/
structure EndsAt (machine : Machine) (calls : Nat) : Prop where
  goesOn : machine.GoesOn calls
  stops : (machine.stepped calls).step.answer ≠ .ok .running

/-- The events of the first `calls` steps. -/
def reported (machine : Machine) (calls : Nat) : List Event :=
  (List.range calls).flatMap fun earlier => (machine.stepped earlier).step.events

/-- One more step reports its events behind the others. -/
theorem reported_succ (machine : Machine) (calls : Nat) :
    machine.reported (calls + 1) =
      machine.reported calls ++ (machine.stepped calls).step.events := by
  unfold reported
  rw [List.range_succ, List.flatMap_append, List.flatMap_singleton]

/-- What a run answers whose step number `calls`, from zero, is the last one. -/
def ending (machine : Machine) (calls : Nat) : Turn Unit where
  answer := (machine.stepped calls).step.answer.map fun _ => ()
  machine := machine.stepped (calls + 1)
  events := machine.reported (calls + 1)

/-- A machine that goes on for a number of steps does so for any smaller number. -/
theorem GoesOn.mono {machine : Machine} {fewer calls : Nat} (h : machine.GoesOn calls)
    (hle : fewer ≤ calls) : machine.GoesOn fewer :=
  fun earlier hlt => h earlier (by omega)

/-- A machine goes on for one step more if its first step goes on and the machine behind it does
for the rest. -/
theorem goesOn_succ_iff {machine : Machine} {calls : Nat} :
    machine.GoesOn (calls + 1) ↔
      machine.step.answer = .ok .running ∧ machine.step.machine.GoesOn calls := by
  refine ⟨fun h => ?_, fun h => ?_⟩
  · refine ⟨h 0 (by omega), fun earlier hlt => ?_⟩
    rw [stepped_step]
    exact h (earlier + 1) (by omega)
  · obtain ⟨hfirst, hrest⟩ := h
    intro earlier hlt
    cases earlier with
    | zero => exact hfirst
    | succ earlier => exact hrest earlier (by omega)

/-- A run ends with its first step if that step does not go on. -/
theorem endsAt_zero_iff {machine : Machine} :
    machine.EndsAt 0 ↔ machine.step.answer ≠ .ok .running := by
  refine ⟨fun h => ?_, fun h => ?_⟩
  · exact h.stops
  · exact ⟨fun earlier hlt => absurd hlt (by omega), h⟩

/-- A run ends later if its first step goes on and the rest of the run ends one step earlier. -/
theorem endsAt_succ_iff {machine : Machine} {calls : Nat} :
    machine.EndsAt (calls + 1) ↔
      machine.step.answer = .ok .running ∧ machine.step.machine.EndsAt calls := by
  refine ⟨fun h => ?_, fun h => ?_⟩
  · obtain ⟨hfirst, hrest⟩ := goesOn_succ_iff.mp h.goesOn
    exact ⟨hfirst, hrest, h.stops⟩
  · obtain ⟨hfirst, hrest⟩ := h
    exact ⟨goesOn_succ_iff.mpr ⟨hfirst, hrest.goesOn⟩, hrest.stops⟩

/-- The first step of a longer run comes in front of the rest. -/
theorem ending_succ (machine : Machine) (calls : Nat) :
    machine.ending (calls + 1) =
      (machine.step.machine.ending calls).reporting machine.step.events := by
  have hevents : machine.reported (calls + 1 + 1) =
      machine.step.events ++ machine.step.machine.reported (calls + 1) := by
    unfold reported
    rw [List.range_succ_eq_map, List.flatMap_cons, List.flatMap_map]
    rfl
  unfold ending
  rw [hevents]
  rfl

/-- A run has one end. -/
theorem EndsAt.unique {machine : Machine} {first second : Nat} (hfirst : machine.EndsAt first)
    (hsecond : machine.EndsAt second) : first = second := by
  by_contra hne
  rcases Nat.lt_or_gt_of_ne hne with hlt | hlt
  · exact hfirst.stops (hsecond.goesOn first hlt)
  · exact hsecond.stops (hfirst.goesOn second hlt)

/-- A run that has come some way ends where it would have ended anyway. -/
theorem EndsAt.stepped {machine : Machine} {last calls : Nat} (h : machine.EndsAt last)
    (hle : calls ≤ last) : (machine.stepped calls).EndsAt (last - calls) where
  goesOn := by
    intro earlier hlt
    rw [stepped_add]
    exact h.goesOn (calls + earlier) (by omega)
  stops := by
    rw [stepped_add, Nat.add_sub_cancel' hle]
    exact h.stops

/-- Where the steps of a run come out the same on another machine, up to a change of the machine
behind them, so does the run. -/
theorem EndsAt.ending_of_steps {machine other : Machine} {change : Machine → Machine} {last : Nat}
    (h : machine.EndsAt last)
    (hsteps : ∀ calls ≤ last,
      (other.stepped calls).step = (machine.stepped calls).step.mapMachine change) :
    other.EndsAt last ∧ other.ending last = (machine.ending last).mapMachine change := by
  refine ⟨⟨fun earlier hlt => ?_, ?_⟩, ?_⟩
  · rw [hsteps earlier (Nat.le_of_lt hlt)]
    exact h.goesOn earlier hlt
  · rw [hsteps last (Nat.le_refl last)]
    exact h.stops
  · have hevents : other.reported (last + 1) = machine.reported (last + 1) := by
      apply List.flatMap_congr
      intro calls hmem
      rw [hsteps calls (Nat.lt_succ_iff.mp (List.mem_range.mp hmem))]
      rfl
    unfold ending
    rw [hevents, stepped_succ, hsteps last (Nat.le_refl last), stepped_succ]
    rfl

/-- A run fails as its last step does. -/
theorem ending_eq_error_iff {machine : Machine} {last : Nat} {fault : Fault} :
    (machine.ending last).answer = .error fault ↔
      (machine.stepped last).step.answer = .error fault := by
  unfold ending
  cases (machine.stepped last).step.answer with
  | error cause => simp [Except.map]
  | ok status => simp [Except.map]

/-- A machine that does not go on for a number of steps ends within them. -/
theorem exists_endsAt {machine : Machine} {calls : Nat} (h : ¬machine.GoesOn calls) :
    ∃ last < calls, machine.EndsAt last := by
  induction calls generalizing machine with
  | zero => exact absurd (fun earlier hlt => absurd hlt (by omega)) h
  | succ calls ih =>
    by_cases hfirst : machine.step.answer = .ok .running
    · have hrest : ¬machine.step.machine.GoesOn calls := fun hrest =>
        h (goesOn_succ_iff.mpr ⟨hfirst, hrest⟩)
      obtain ⟨last, hlt, hends⟩ := ih hrest
      exact ⟨last + 1, by omega, endsAt_succ_iff.mpr ⟨hfirst, hends⟩⟩
    · exact ⟨0, by omega, endsAt_zero_iff.mpr hfirst⟩

/-- A bounded run whose first step goes on leaves the rest to a shorter one. -/
theorem runFor_succ_of_running {machine : Machine} (h : machine.step.answer = .ok .running)
    (calls : Nat) :
    runFor (calls + 1) #[] machine =
      (runFor calls #[] machine.step.machine).map (Turn.reporting machine.step.events) := by
  simp only [runFor, h]
  rw [runFor_reported]
  simp

/-- A bounded run whose first step does not go on ends there. -/
theorem runFor_succ_of_stops {machine : Machine} (h : machine.step.answer ≠ .ok .running)
    (calls : Nat) : runFor (calls + 1) #[] machine = some (machine.ending 0) := by
  have hevents : machine.reported 1 = machine.step.events := by simp [reported]
  unfold runFor ending
  rw [hevents, stepped_zero, stepped_succ, stepped_zero]
  cases hanswer : machine.step.answer with
  | error fault => simp [hanswer, Except.map]
  | ok status =>
    cases status with
    | halted => simp [hanswer, Except.map]
    | running => exact absurd hanswer h

/-- A bounded run finds an end exactly when there is one within its bound. -/
theorem runFor_eq_some_iff {calls : Nat} {machine : Machine} {turn : Turn Unit} :
    runFor calls #[] machine = some turn ↔
      ∃ last < calls, machine.EndsAt last ∧ turn = machine.ending last := by
  induction calls generalizing machine turn with
  | zero => simp [runFor]
  | succ calls ih =>
    by_cases hfirst : machine.step.answer = .ok .running
    · rw [runFor_succ_of_running hfirst, Option.map_eq_some_iff]
      refine ⟨fun h => ?_, fun h => ?_⟩
      · obtain ⟨rest, hrest, rfl⟩ := h
        obtain ⟨last, hlt, hends, rfl⟩ := ih.mp hrest
        exact ⟨last + 1, by omega, endsAt_succ_iff.mpr ⟨hfirst, hends⟩,
          (ending_succ machine last).symm⟩
      · obtain ⟨last, hlt, hends, rfl⟩ := h
        cases last with
        | zero => exact absurd hfirst hends.stops
        | succ last =>
          refine ⟨machine.step.machine.ending last, ?_, (ending_succ machine last).symm⟩
          exact ih.mpr ⟨last, by omega, (endsAt_succ_iff.mp hends).2, rfl⟩
    · have hends : machine.EndsAt 0 := endsAt_zero_iff.mpr hfirst
      rw [runFor_succ_of_stops hfirst, Option.some.injEq]
      refine ⟨fun h => ?_, fun h => ?_⟩
      · subst h
        exact ⟨0, by omega, hends, rfl⟩
      · obtain ⟨last, -, hlast, rfl⟩ := h
        rw [hends.unique hlast]

/-- A walk whose first step goes on leaves the rest to a shorter one. -/
theorem walk_succ_of_running {machine : Machine} (h : machine.step.answer = .ok .running)
    (calls : Nat) :
    machine.walk (calls + 1) =
      { lines := machine.traceLine :: (machine.step.machine.walk calls).lines
        last := (machine.step.machine.walk calls).last.or (some (.ok .running))
        machine := (machine.step.machine.walk calls).machine
        events := machine.step.events ++ (machine.step.machine.walk calls).events } := by
  simp only [walk, h]

/-- A walk whose first step does not go on is over with it. -/
theorem walk_succ_of_stops {machine : Machine} (h : machine.step.answer ≠ .ok .running)
    (calls : Nat) :
    machine.walk (calls + 1) =
      { lines := [machine.traceLine]
        last := some machine.step.answer
        machine := machine.step.machine
        events := machine.step.events } := by
  simp only [walk]

/-- A walk whose steps all go on takes as many of them as it may. -/
theorem GoesOn.walk_machine {machine : Machine} {calls : Nat} (h : machine.GoesOn calls) :
    (machine.walk calls).machine = machine.stepped calls := by
  induction calls generalizing machine with
  | zero => rfl
  | succ calls ih =>
    obtain ⟨hfirst, hrest⟩ := goesOn_succ_iff.mp h
    rw [walk_succ_of_running hfirst, ← stepped_step]
    exact ih hrest

/-- A walk is over with the first step that does not go on. -/
theorem EndsAt.walk_machine {machine : Machine} {last calls : Nat} (h : machine.EndsAt last)
    (hlt : last < calls) : (machine.walk calls).machine = machine.stepped (last + 1) := by
  obtain ⟨calls, rfl⟩ : ∃ fewer, calls = fewer + 1 := ⟨calls - 1, by omega⟩
  induction last generalizing machine calls with
  | zero =>
    rw [walk_succ_of_stops (endsAt_zero_iff.mp h)]
    rfl
  | succ last ih =>
    obtain ⟨hfirst, hrest⟩ := endsAt_succ_iff.mp h
    obtain ⟨fewer, rfl⟩ : ∃ fewer, calls = fewer + 1 := ⟨calls - 1, by omega⟩
    rw [walk_succ_of_running hfirst, ← stepped_step]
    exact ih hrest fewer (by omega)

/-- A walk goes on to its last step, or it is over with the one at which a run ends. -/
theorem walk_cases (machine : Machine) (calls : Nat) :
    (machine.GoesOn calls ∧ (machine.walk calls).machine = machine.stepped calls) ∨
      ∃ last < calls, machine.EndsAt last ∧
        (machine.walk calls).machine = machine.stepped (last + 1) := by
  by_cases h : machine.GoesOn calls
  · exact Or.inl ⟨h, h.walk_machine⟩
  · obtain ⟨last, hlt, hends⟩ := exists_endsAt h
    exact Or.inr ⟨last, hlt, hends, hends.walk_machine hlt⟩

/-- A machine that goes on is running and has counted the instructions. -/
theorem GoesOn.counts {machine : Machine} {calls : Nat} (h : machine.GoesOn calls)
    (running : machine.status = .running) :
    (machine.stepped calls).status = .running ∧
      (machine.stepped calls).steps = machine.steps + calls := by
  induction calls with
  | zero => exact ⟨running, rfl⟩
  | succ calls ih =>
    obtain ⟨-, hsteps⟩ := ih (h.mono (Nat.le_succ calls))
    obtain ⟨-, hrunning, hcount⟩ := step_counts_of_running (h calls (by omega))
    rw [stepped_succ]
    exact ⟨hrunning, by omega⟩

/-- A run that fails has executed the instructions of the steps that went on, one that halts has
executed one more. -/
theorem EndsAt.steps_ending {machine : Machine} {last : Nat} (h : machine.EndsAt last)
    (running : machine.status = .running) :
    ((machine.ending last).machine.steps = machine.steps + last ∧
        ∃ fault, (machine.ending last).answer = .error fault) ∨
      ((machine.ending last).machine.steps = machine.steps + last + 1 ∧
        (machine.ending last).answer = .ok () ∧
          (machine.stepped last).counter + 2 < memorySize) := by
  obtain ⟨hrunning, hsteps⟩ := h.goesOn.counts running
  unfold ending
  rw [stepped_succ]
  cases hanswer : (machine.stepped last).step.answer with
  | error fault =>
    obtain ⟨sink, -, hsink⟩ := step_of_fault hanswer
    rw [hsink]
    exact Or.inl ⟨hsteps, fault, rfl⟩
  | ok status =>
    obtain ⟨hcounter, -, hcount⟩ := step_counts hrunning hanswer
    exact Or.inr ⟨by rw [hcount, hsteps], rfl, hcounter⟩

/-- A halted machine stays as it is however often it is stepped. -/
theorem stepped_of_halted {machine : Machine} (h : machine.status = .halted) (calls : Nat) :
    machine.stepped calls = machine := by
  induction calls with
  | zero => rfl
  | succ calls ih => rw [stepped_succ, ih, step_halted h]

/-- What has been printed stays in front of what is printed later. -/
theorem contents_isPrefix_stepped (machine : Machine) (calls : Nat) :
    machine.sink.contents.toList <+: (machine.stepped calls).sink.contents.toList := by
  induction calls with
  | zero => exact List.prefix_rfl
  | succ calls ih =>
    rw [stepped_succ]
    exact ih.trans (machine.stepped calls).step_follows.contents_isPrefix

/-- A new machine that a program has been loaded into. -/
def loaded (config : Config) (sink : Sink) (image : Image) : Machine :=
  ((new config sink).load image).machine

/-- Loading makes any machine as good as new. -/
theorem load_machine (machine : Machine) (image : Image) :
    (machine.load image).machine = loaded machine.config machine.sink image := rfl

/-- A program that prints the powers of two below eight, in a loop. -/
def doubling : Image where
  program := [0x82, 0, 1, 0x82, 1, 2, 0x82, 2, 8, 0x82, 3, 12, 0x47, 0, 0xA2, 0, 1, 0xA7, 0, 2,
    0x56, 3, 0x01]
  fits := by decide

/-- The configuration outlasts any number of steps. -/
@[simp] theorem stepped_config (machine : Machine) (calls : Nat) :
    (machine.stepped calls).config = machine.config := by
  induction calls with
  | zero => rfl
  | succ calls ih => rw [stepped_succ, step_config, ih]

/-- No number of steps writes to the memory. -/
@[simp] theorem stepped_memory (machine : Machine) (calls : Nat) :
    (machine.stepped calls).memory = machine.memory := by
  induction calls with
  | zero => rfl
  | succ calls ih => rw [stepped_succ, step_memory, ih]

end Machine

end ByteMachine
