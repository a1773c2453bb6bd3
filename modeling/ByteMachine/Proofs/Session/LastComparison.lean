import ByteMachine.Proofs.Execution.Effects
import ByteMachine.Proofs.Session.Trail

/-!
# The flag reports the last comparison

Of everything that was executed since a program was loaded, the flag remembers one thing: how the
two values of the last comparison were ordered at that time. Later changes of the registers, writes
of the host to the memory and failed steps in between do not disturb it, failed comparisons
included. So a conditional jump is decided by the last comparison, however long ago that was.
-/

namespace ByteMachine

/-- A flag that is set is one bit of its byte. -/
theorem Flags.exists_bits_eq_two_pow {flags : Flags} (h : flags ≠ .none) :
    ∃ place, flags.bits.toNat = 2 ^ place := by
  cases flags with
  | none => exact absurd rfl h
  | equal => exact ⟨0, rfl⟩
  | greater => exact ⟨1, rfl⟩
  | less => exact ⟨2, rfl⟩

namespace Machine

/-- The values of the last comparison among the steps of some machines. -/
def lastCompared? (past : List Machine) : Option (UInt8 × UInt8) :=
  (past.filterMap compared?).getLast?

/-- Whether there was a comparison and the last one was between equal values. -/
def lastComparedEqual (past : List Machine) : Bool :=
  (lastCompared? past).any fun values => values.1 = values.2

/-- The flag that the last comparison leaves behind. -/
def lastFlag (past : List Machine) : Flags :=
  (lastCompared? past).elim .none fun values => .ofOrder values.1 values.2

/-- The next step leads past a jump and does nothing else. -/
def PassesBy (machine : Machine) : Prop :=
  machine.step.machine =
    { machine with counter := machine.counter + 2, steps := machine.steps + 1 }

variable {past : List Machine} {machine : Machine} {a : UInt8}

/-- A step that compares takes over from what came before. -/
theorem lastFlag_append (past : List Machine) (machine : Machine) :
    lastFlag (past ++ [machine]) =
      machine.compared?.elim (lastFlag past) fun values => .ofOrder values.1 values.2 := by
  unfold lastFlag lastCompared?
  rw [List.filterMap_append, List.getLast?_append]
  cases hcompared : machine.compared? <;> simp [hcompared]

/-- The last flag is unset exactly when nothing was compared. -/
theorem lastFlag_eq_none_iff :
    lastFlag past = .none ↔ ∀ stage ∈ past, stage.compared? = none := by
  rw [← List.filterMap_eq_nil_iff, ← List.getLast?_eq_none_iff]
  unfold lastFlag lastCompared?
  cases (past.filterMap compared?).getLast? with
  | none => simp
  | some values => simp [Flags.ofOrder_eq_ofValues, Flags.ofValues_ne_none]

/-- The last flag is the one for equal values exactly when the last comparison was between such. -/
theorem lastFlag_eq_equal_iff : lastFlag past = .equal ↔ lastComparedEqual past = true := by
  unfold lastFlag lastComparedEqual
  cases lastCompared? past with
  | none => simp
  | some values => simp [Flags.ofOrder_eq_ofValues, Flags.ofValues_eq_equal_iff]

/-- A session that loads no program keeps the flag at what the last comparison left. -/
theorem flags_eq_lastFlag {session : List Command} (hload : ∀ image, .load image ∉ session)
    {later : Machine} (hafter : machine.after session = some later)
    (h : machine.registers.flags = lastFlag past) :
    later.registers.flags = lastFlag (past ++ machine.trail session) := by
  refine trail_induction (P := fun past machine => machine.registers.flags = lastFlag past)
    (fun past machine hflags => ?_) hload (fun _ _ _ _ _ _ hflags => hflags)
    (fun _ _ hflags => hflags) hafter h
  rw [flags_step, lastFlag_append, hflags]

/-- A step that goes on takes a conditional jump if its condition holds, and passes it by
otherwise. -/
theorem step_of_conditional {instruction : Instruction} {taken : Prop} [Decidable taken]
    (hgoes : machine.step.answer = .ok .running)
    (hinstruction : machine.instruction? = some instruction)
    (hresult : machine.result? instruction =
      if taken then machine.jumpTo? a else some { machine with counter := machine.counter + 2 }) :
    if taken then machine.JumpsTo a else machine.PassesBy := by
  obtain ⟨executed, after, hexecuted, hafter, -, hmachine⟩ := exists_result_of_running hgoes
  obtain rfl : executed = instruction := Option.some.inj (hexecuted.symm.trans hinstruction)
  rw [hresult] at hafter
  by_cases htaken : taken
  · rw [if_pos htaken] at hafter ⊢
    obtain ⟨target, htarget, rfl⟩ := jumpTo?_eq_some_iff.mp hafter
    exact ⟨target, htarget, hmachine⟩
  · rw [if_neg htaken] at hafter ⊢
    cases hafter
    exact hmachine

/-- The flag is unset exactly when no comparison has succeeded since the program was loaded, and
otherwise tells the order of the values that the last one compared. The conditional jumps follow
it. -/
theorem flag_reports_last_comparison (machine : Machine) (image : Image) (session : List Command)
    (hload : ∀ image, .load image ∉ session) (later : Machine)
    (hafter : (machine.load image).machine.after session = some later) :
    let past := (machine.load image).machine.trail session
    (later.registers.flags = .none ↔ ∀ stage ∈ past, stage.compared? = none) ∧
    (∀ left right, lastCompared? past = some (left, right) →
      later.registers.flags = .ofOrder left right ∧
        ∃ place, later.registers.flags.bits.toNat = 2 ^ place) ∧
    (later.step.answer = .ok .running →
      (∀ a, later.instruction? = some (.jeq a) →
        if lastComparedEqual past then later.JumpsTo a else later.PassesBy) ∧
      (∀ a, later.instruction? = some (.jne a) →
        if lastComparedEqual past then later.PassesBy else later.JumpsTo a)) := by
  intro past
  have hloaded : (machine.load image).machine.registers.flags = lastFlag [] := rfl
  have hflags : later.registers.flags = lastFlag past := flags_eq_lastFlag hload hafter hloaded
  have hequal : later.registers.flags = .equal ↔ lastComparedEqual past = true := by
    rw [hflags, lastFlag_eq_equal_iff]
  refine ⟨?_, fun left right hlast => ?_, fun hgoes => ⟨fun a hjeq => ?_, fun a hjne => ?_⟩⟩
  · rw [hflags, lastFlag_eq_none_iff]
  · have hset : later.registers.flags = .ofOrder left right := by
      rw [hflags, lastFlag, hlast, Option.elim_some]
    refine ⟨hset, Flags.exists_bits_eq_two_pow ?_⟩
    rw [hset, Flags.ofOrder_eq_ofValues]
    exact Flags.ofValues_ne_none left right
  · refine step_of_conditional hgoes hjeq ?_
    simp only [result?, hequal]
  · rw [← ite_not]
    refine step_of_conditional hgoes hjne ?_
    simp only [result?, hequal, ite_not]

/-- A program that compares 3 with 5, makes the 3 a 15, and fails to compare with a register that
does not exist. -/
def staleComparison : Image where
  program := [0x82, 0, 3, 0x82, 1, 5, 0xA7, 0, 1, 0xA2, 0, 1, 0xA7, 9, 0]
  fits := by decide

/-- The flag still says that 3 is less than 5 after the program has failed and the host has written
a jump over the failing instruction. The jump is taken, as the values were not equal. -/
theorem flag_reports_last_comparison_staleComparison :
    let start := ((new {} {}).load staleComparison).machine
    let session := [.run, .writeMemory 12 0x56, .step, .writeMemory 13 1]
    ∃ later, start.after session = some later ∧
      lastCompared? (start.trail session) = some (3, 5) ∧ later.registers.flags = .less ∧
      later.JumpsTo 1 := by
  intro start session
  have hload : ∀ image, .load image ∉ session := by simp [session]
  have hlast : lastCompared? (start.trail session) = some (3, 5) := by decide +kernel
  have hseen : (start.after session).map (fun later =>
      (decide (later.step.answer = .ok .running), later.instruction?)) =
      some (true, some (.jne 1)) := by
    decide +kernel
  obtain ⟨later, hafter, hlater⟩ := Option.map_eq_some_iff.mp hseen
  obtain ⟨hgoes, hjne⟩ : later.step.answer = .ok .running ∧ later.instruction? = some (.jne 1) := by
    simpa using hlater
  obtain ⟨-, hcompared, hjumps⟩ :=
    flag_reports_last_comparison (new {} {}) staleComparison session hload later hafter
  have hunequal : lastComparedEqual (start.trail session) = false := by
    rw [lastComparedEqual, hlast]
    rfl
  have htaken := (hjumps hgoes).2 1 hjne
  rw [if_neg (by simp [start, hunequal])] at htaken
  exact ⟨later, hafter, hlast, (hcompared 3 5 hlast).1, htaken⟩

end Machine

end ByteMachine
