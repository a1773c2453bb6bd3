import ByteMachine.Proofs.Session.Induction

/-!
# What no session can break

The counter of a machine stays within memory or stops just behind it: an instruction is executed
only where two more bytes can be fetched, and none is longer than three. From this the other bounds
follow, each instruction adding one to the count and at most one origin. Loading restores all of
them, and a host that writes to the memory, even between two steps, touches none.

A machine that has halted stays so until a program is loaded, and in the meantime neither steps nor
runs do anything.
-/

namespace ByteMachine

/-- An insertion adds at most one address. -/
theorem Origins.size_insert_le (origins : Origins) (address : Nat) :
    (origins.insert address).size ≤ origins.size + 1 := by
  by_cases h : address ∈ origins
  · rw [insert_of_mem h]
    exact Nat.le_succ _
  · exact (size_insert_of_not_mem h).le

namespace Machine

/-- What holds of a machine built with a configuration, however it has been driven. The number of
instructions counted here has no bound of its own. -/
structure Invariant (config : Config) (machine : Machine) : Prop where
  config_eq : machine.config = config
  stackPointer_eq : machine.stackPointer = 0xF4
  counter_le : machine.counter ≤ 256
  origins_le : ∀ address ∈ machine.origins, address ≤ 253
  size_le_steps : machine.origins.size ≤ machine.steps
  steps_le_limit : ∀ limit, config.stepLimit = some limit → machine.steps ≤ limit
  of_halted : machine.status = .halted →
    machine.counter ≤ 253 ∧ 1 ≤ machine.steps ∧ machine.origins.size < machine.steps

namespace Invariant

variable {config : Config} {machine : Machine}

/-- It holds of a new machine. -/
theorem new (config : Config) (sink : Sink) : (new config sink).Invariant config where
  config_eq := rfl
  stackPointer_eq := rfl
  counter_le := Nat.zero_le _
  origins_le := fun address hmem => absurd hmem (Origins.not_mem_empty address)
  size_le_steps := le_rfl
  steps_le_limit := fun _ _ => Nat.zero_le _
  of_halted := fun h => by cases h

/-- It holds of a machine that a program has just been loaded into. -/
theorem loaded (config : Config) (sink : Sink) (image : Image) :
    (loaded config sink image).Invariant config :=
  { new config sink with }

/-- A step keeps it, whatever the step answers. -/
theorem step (h : machine.Invariant config) : machine.step.machine.Invariant config := by
  rcases machine.step_idle_or_executes with ⟨sink, -, hmachine, -⟩ |
    ⟨op, a, b, registers, request, sink, hexecutes⟩
  · rw [hmachine]
    exact { h with }
  · have hwindow : machine.counter + 2 < 256 := hexecutes.counter_lt
    have hcounter : machine.counter ≤ 253 := by omega
    have hsize := h.size_le_steps
    have hlimit : ∀ limit, config.stepLimit = some limit → machine.steps + 1 ≤ limit := by
      have hbelow := reachedLimit?_eq_none_iff.mp hexecutes.belowLimit
      rwa [h.config_eq] at hbelow
    rcases hexecutes.step_cases with ⟨-, hmachine⟩ | ⟨hrequest, -, -, hmachine⟩
    · rw [hmachine]
      exact { h with
        size_le_steps := Nat.le_succ_of_le hsize
        steps_le_limit := hlimit
        of_halted := fun _ => ⟨hcounter, Nat.le_add_left 1 _, Nat.lt_succ_of_le hsize⟩ }
    · have hrunning := hexecutes.running
      rw [hmachine]
      rcases hexecutes.proceed_cases hrequest with ⟨-, hadvance⟩ | ⟨target, -, -, -, -, hjump⟩
      · have hlength := op.increment_fields_le
        rw [hadvance]
        exact { h with
          counter_le := Nat.add_le_add hcounter hlength
          size_le_steps := Nat.le_succ_of_le hsize
          steps_le_limit := hlimit
          of_halted := fun hhalted => absurd (hrunning.symm.trans hhalted) (by decide) }
      · rw [hjump]
        exact { h with
          counter_le := target.toNat_lt.le
          origins_le := fun address hmem => by
            rcases Origins.mem_insert.mp hmem with rfl | hmem
            · exact hcounter
            · exact h.origins_le address hmem
          size_le_steps := (machine.origins.size_insert_le _).trans (Nat.succ_le_succ hsize)
          steps_le_limit := hlimit
          of_halted := fun hhalted => absurd (hrunning.symm.trans hhalted) (by decide) }

/-- Every change that a command makes keeps it. -/
theorem change {command : Command} {later : Machine} (h : machine.Invariant config)
    (hchange : machine.Change command later) : later.Invariant config := by
  cases hchange with
  | loaded image =>
    rw [load_machine, h.config_eq]
    exact loaded config machine.sink image
  | stepped _ calls => exact stepped_induction (fun _ hbefore => hbefore.step) h calls
  | written address value memory => exact { h with }
  | cleared => exact { h with }

end Invariant

variable {machine : Machine}

/-- A step that misses the memory does so by one address, and stands at one of the last two or just
behind them. -/
theorem missed_address (hcounter : machine.counter ≤ memorySize) {address : Nat}
    (h : machine.step.answer = .error (.outOfRange .memory address)) :
    address = memorySize ∧ memorySize ≤ machine.counter + 2 := by
  cases fails_of_step h with
  | undecoded hrunning hbelow hdecode =>
    rcases decode_fault hdecode with ⟨hlast, hfault⟩ | ⟨-, hfault⟩
    · rw [Nat.max_eq_right hcounter] at hfault
      cases hfault
      exact ⟨rfl, hlast⟩
    · cases hfault
  | refused hdispatches hrefused =>
    obtain ⟨⟨number, hfault⟩ | ⟨-, hfault⟩, -⟩ := Opcode.of_execute_eq_error hrefused
    · cases hfault
    · cases hfault

/-- A halted machine carries out every command but that to load a program, and changes at most its
memory and its sink. -/
theorem obey_of_halted (h : machine.status = .halted) {command : Command}
    (hcommand : ∀ image, command ≠ .load image) :
    ∃ turn, machine.obey command = some turn ∧
      turn.machine =
        { machine with memory := turn.machine.memory, sink := turn.machine.sink } := by
  have hobeyed : ∃ turn, machine.obey command = some turn := by
    cases command with
    | run => exact ⟨_, congrArg (Option.map _) (run_halted h)⟩
    | _ => exact ⟨_, rfl⟩
  obtain ⟨turn, hturn⟩ := hobeyed
  have hchange := change_of_obey hturn
  refine ⟨turn, hturn, ?_⟩
  generalize turn.machine = later at hchange ⊢
  cases hchange with
  | loaded image => exact absurd rfl (hcommand image)
  | stepped _ calls => rw [stepped_of_halted h]
  | written address value memory => rfl
  | cleared => rfl

/-- The same holds of every session that loads no program. -/
theorem after_of_halted (h : machine.status = .halted) {session : List Command}
    (hsession : ∀ image, .load image ∉ session) :
    ∃ later, machine.after session = some later ∧
      later = { machine with memory := later.memory, sink := later.sink } := by
  induction session generalizing machine with
  | nil => exact ⟨machine, rfl, rfl⟩
  | cons command session ih =>
    have hcommand : ∀ image, command ≠ .load image := fun image heq =>
      hsession image (heq ▸ List.mem_cons_self)
    obtain ⟨turn, hturn, hmachine⟩ := obey_of_halted h hcommand
    have hhalted : turn.machine.status = .halted := by
      rw [hmachine]
      exact h
    obtain ⟨later, hlater, hstate⟩ :=
      ih hhalted fun image hmem => hsession image (List.mem_cons_of_mem command hmem)
    refine ⟨later, ?_, ?_⟩
    · rw [after_cons, hturn]
      exact hlater
    · rw [hmachine] at hstate
      exact hstate

/-- Whatever a host does with a machine, its invariant holds. A step that misses the memory does so
by one address. A halted machine answers every step and every run at once, reports nothing and stays
as it is, through all that the host does until it loads a program. -/
theorem session_keeps_invariant (config : Config) (sink : Sink) (session : List Command)
    (machine : Machine) (hreached : (new config sink).after session = some machine) :
    machine.Invariant config ∧
    (∀ address, machine.step.answer = .error (.outOfRange .memory address) →
      address = 256 ∧ 254 ≤ machine.counter) ∧
    (machine.status = .halted → ∀ later, (∀ image, .load image ∉ later) →
      ∃ after, machine.after later = some after ∧
        after = { machine with memory := after.memory, sink := after.sink } ∧
        after.step = ⟨.ok .halted, after, []⟩ ∧
        after.run = some ⟨.ok (), after, []⟩) := by
  have hinvariant : machine.Invariant config :=
    after_induction (fun _ _ _ _ hchange hbefore => hbefore.change hchange) hreached
      (Invariant.new config sink)
  refine ⟨hinvariant, fun address hmissed => ?_, fun hhalted later hlater => ?_⟩
  · obtain ⟨rfl, hlast⟩ := missed_address hinvariant.counter_le hmissed
    change 256 ≤ machine.counter + 2 at hlast
    exact ⟨rfl, by omega⟩
  · obtain ⟨after, hafter, hstate⟩ := after_of_halted hhalted hlater
    have hstays : after.status = .halted := by
      rw [hstate]
      exact hhalted
    exact ⟨after, hafter, hstate, step_halted hstays, run_halted hstays⟩

/-- The doubling program is halted by the guard, although its memory has been tampered with, and
then stays so. A jump to address 254 leads a machine where nothing can be fetched. -/
theorem session_keeps_invariant_doubling :
    (∃ machine, (new { stepLimit := some 40 } {}).after
        [.load doubling, .step, .writeMemory 300 1, .writeMemory 22 9, .run] = some machine ∧
      machine.status = .halted ∧ machine.counter = 20 ∧ machine.steps = 12 ∧
      machine.Invariant { stepLimit := some 40 } ∧
      ∃ after, machine.after [.step, .clearOutput, .writeMemory 0 7, .run] = some after ∧
        after.step = ⟨.ok .halted, after, []⟩ ∧ after.run = some ⟨.ok (), after, []⟩) ∧
    ∃ machine, (new {} {}).after
        [.load ⟨[0x82, 0, 254, 0x54, 0], by decide⟩, .step, .step] = some machine ∧
      machine.step.answer = .error (.outOfRange .memory 256) ∧ 254 ≤ machine.counter := by
  have htampered : ((new { stepLimit := some 40 } {}).after
      [.load doubling, .step, .writeMemory 300 1, .writeMemory 22 9, .run]).map
        (fun machine => (machine.status, machine.counter, machine.steps)) =
      some (.halted, 20, 12) := by
    decide +kernel
  have hleapt : ((new {} {}).after
      [.load ⟨[0x82, 0, 254, 0x54, 0], by decide⟩, .step, .step]).map
        (fun machine => machine.step.answer) =
      some (.error (.outOfRange .memory 256)) := by
    decide +kernel
  obtain ⟨halted, hhalted, hseen⟩ := Option.map_eq_some_iff.mp htampered
  obtain ⟨hstatus, hcounter, hsteps⟩ : halted.status = .halted ∧ halted.counter = 20 ∧
    halted.steps = 12 := by simpa using hseen
  obtain ⟨stranded, hstranded, hmissed⟩ := Option.map_eq_some_iff.mp hleapt
  obtain ⟨hinvariant, -, hstays⟩ := session_keeps_invariant _ _ _ halted hhalted
  obtain ⟨-, haddress, -⟩ := session_keeps_invariant _ _ _ stranded hstranded
  obtain ⟨after, hafter, -, hstep, hrun⟩ :=
    hstays hstatus [.step, .clearOutput, .writeMemory 0 7, .run] (by simp)
  exact ⟨⟨halted, hhalted, hstatus, hcounter, hsteps, hinvariant, after, hafter, hstep, hrun⟩,
    stranded, hstranded, hmissed, (haddress 256 hmissed).2⟩

end Machine

end ByteMachine
