import ByteMachine.Proofs.Execution.Effects
import ByteMachine.Proofs.Execution.JumpOrigins
import ByteMachine.Proofs.Session.Trail

/-!
# Origins are the jumps that were taken

The origins of a machine are set beside its trail: they are the addresses from which a jump was
taken since the program was loaded, and each of them still holds that jump. With the guard no
address is left twice by a jump, because a step that comes back to one of them halts the machine
instead. It does so whether or not the condition of the jump holds this time, and it cannot fail:
the jump can be fetched and its register exists, or the origin would not be there.
-/

namespace ByteMachine.Machine

/-- The addresses of the jumps taken by the steps of some machines, in the same order. -/
def jumpsTaken (past : List Machine) : List Nat :=
  (past.filter takesJump).map counter

variable {past : List Machine} {machine : Machine}

/-- A step that takes a jump adds its address. -/
theorem jumpsTaken_append_of_takesJump (past : List Machine) (h : machine.takesJump = true) :
    jumpsTaken (past ++ [machine]) = jumpsTaken past ++ [machine.counter] := by
  simp [jumpsTaken, h]

/-- A step that takes no jump adds nothing. -/
theorem jumpsTaken_append_of_not_takesJump (past : List Machine)
    (h : machine.takesJump = false) : jumpsTaken (past ++ [machine]) = jumpsTaken past := by
  simp [jumpsTaken, h]

/-- No jump is taken from an address that the guard holds. -/
theorem not_guarded_of_takesJump (h : machine.takesJump = true) : ¬machine.Guarded := by
  obtain ⟨_, _, _, _, _, _, -, -, hguarded, -⟩ :=
    exists_executes_of_running (takesJump_iff.mp h).1
  exact hguarded

/-- What the origins of a machine have to do with the steps that led to it. -/
structure JumpRecord (past : List Machine) (machine : Machine) : Prop where
  mem_iff : ∀ address, address ∈ machine.origins ↔ address ∈ jumpsTaken past
  areJumps : machine.OriginsAreJumps
  nodup : machine.config.revisitGuard = true → (jumpsTaken past).Nodup

namespace JumpRecord

/-- A loaded machine has no origins and has taken no jumps. -/
theorem loaded (config : Config) (sink : Sink) (image : Image) :
    JumpRecord [] (loaded config sink image) where
  mem_iff := by simp [jumpsTaken, Machine.loaded, load, new]
  areJumps := originsAreJumps_loaded config sink image
  nodup := fun _ => List.nodup_nil

/-- A step keeps the record: it takes a jump and adds an origin, or it does neither. -/
theorem step (h : JumpRecord past machine) :
    JumpRecord (past ++ [machine]) machine.step.machine := by
  have horigins := machine.origins_step
  have hjumps := h.areJumps.step
  cases htakes : machine.takesJump with
  | true =>
    rw [if_pos htakes] at horigins
    refine ⟨fun address => ?_, hjumps, fun hguard => ?_⟩
    · rw [horigins, Origins.mem_insert, jumpsTaken_append_of_takesJump past htakes,
        List.mem_append, List.mem_singleton, h.mem_iff, or_comm]
    · rw [step_config] at hguard
      have hnew : machine.counter ∉ jumpsTaken past := fun hmem =>
        not_guarded_of_takesJump htakes ⟨hguard, (h.mem_iff _).mpr hmem⟩
      rw [jumpsTaken_append_of_takesJump past htakes, ← List.concat_eq_append]
      exact (h.nodup hguard).concat hnew
  | false =>
    rw [if_neg (by simp [htakes])] at horigins
    have hsame := jumpsTaken_append_of_not_takesJump past htakes
    refine ⟨fun address => ?_, hjumps, fun hguard => ?_⟩
    · rw [horigins, hsame, h.mem_iff]
    · rw [step_config] at hguard
      rw [hsame]
      exact h.nodup hguard

/-- A session that neither loads a program nor writes to the memory keeps the record. -/
theorem after {session : List Command} (hload : ∀ image, .load image ∉ session)
    (hwrite : ∀ address value, .writeMemory address value ∉ session) {later : Machine}
    (hafter : machine.after session = some later) (h : JumpRecord past machine) :
    JumpRecord (past ++ machine.trail session) later := by
  refine trail_induction (fun _ _ hbefore => hbefore.step) hload ?_ ?_ hafter h
  · exact fun address value hmem => absurd hmem (hwrite address value)
  · exact fun _ _ hbefore => ⟨hbefore.mem_iff, hbefore.areJumps, hbefore.nodup⟩

end JumpRecord

/-- What stands at an origin: below address 254 the byte of a jump, and behind it the number of a
register. -/
theorem OriginsAreJumps.peek (h : machine.OriginsAreJumps) {address : Nat}
    (hmem : address ∈ machine.origins) :
    address ≤ 253 ∧ machine.memory.peek address ∈ [0x54, 0x55, 0x56] ∧
      (machine.memory.peek (address + 1)).toNat ≤ 8 := by
  obtain ⟨op, a, hop, hopcode, ha, hnumber, hlt⟩ := h address hmem
  have hwithin : address + 2 < 256 := hlt
  simp only [Memory.peek, hopcode, ha, Option.getD_some]
  refine ⟨by omega, ?_, Nat.le_of_lt_succ hnumber⟩
  rcases hop with rfl | rfl | rfl <;> decide

/-- A running machine that comes back to an origin is halted by the guard, unless its limit has been
reached. The jump could be executed, but nothing comes of it, whether or not its condition holds. -/
theorem OriginsAreJumps.step_of_guarded (h : machine.OriginsAreJumps)
    (hguarded : machine.Guarded) (running : machine.status = .running)
    (hbelow : machine.reachedLimit? = none) :
    machine.step.answer = .ok .halted ∧
      machine.step.machine =
        { machine with status := .halted, steps := machine.steps + 1 } := by
  obtain ⟨op, a, hop, hopcode, ha, hnumber, hlt⟩ := h machine.counter hguarded.2
  have hb : machine.memory[machine.counter + 2]? = some machine.memory[machine.counter + 2] :=
    Vector.getElem?_eq_getElem hlt
  have hdispatches : machine.Dispatches op a machine.memory[machine.counter + 2] :=
    ⟨running, hbelow, decode_eq_ok_iff.mpr (fetch_eq_ok_iff.mpr ⟨hopcode, ha, hb⟩)⟩
  obtain ⟨request, hexecuted, hrequest⟩ :=
    hop.execute (Registers.read_of_lt machine.registers hnumber) machine.sink
      machine.memory[machine.counter + 2]
  have hgoes : request ≠ .halt := by
    rcases hrequest with rfl | rfl <;> simp
  exact Executes.step_of_guarded ⟨hdispatches, hexecuted⟩ hgoes hguarded

/-- As long as the host does not write to the memory, the origins are exactly the addresses from
which a jump was taken since the program was loaded. They hold jumps, and no two are neighbours;
with the guard on, no two jumps are taken from one of them. -/
theorem origins_are_jumps_taken (machine : Machine) (image : Image) (session : List Command)
    (hload : ∀ image, .load image ∉ session)
    (hwrite : ∀ address value, .writeMemory address value ∉ session) (later : Machine)
    (hafter : (machine.load image).machine.after session = some later) :
    let jumps := jumpsTaken ((machine.load image).machine.trail session)
    (∀ address, address ∈ later.origins ↔ address ∈ jumps) ∧
    (∀ address ∈ later.origins, address ≤ 253 ∧
      later.memory.peek address ∈ [0x54, 0x55, 0x56] ∧
      (later.memory.peek (address + 1)).toNat ≤ 8 ∧ address + 1 ∉ later.origins) ∧
    later.origins.size ≤ 127 ∧
    (machine.config.revisitGuard = true →
      jumps.Nodup ∧
      (later.status = .running → later.counter ∈ later.origins →
        (∃ limit, later.config.stepLimit = some limit ∧ limit ≤ later.steps ∧
          later.step = ⟨.error (.stepLimitExceeded limit), later, []⟩) ∨
        (later.step.answer = .ok .halted ∧
          later.step.machine = { later with status := .halted, steps := later.steps + 1 }))) := by
  intro jumps
  have hrecord : JumpRecord ([] ++ (machine.load image).machine.trail session) later :=
    (JumpRecord.loaded machine.config machine.sink image).after hload hwrite hafter
  rw [List.nil_append] at hrecord
  have hconfig : later.config = (machine.load image).machine.config := after_config hafter
  refine ⟨hrecord.mem_iff, fun address hmem => ?_, hrecord.areJumps.size_le, fun hguard => ?_⟩
  · obtain ⟨hle, hopcode, hnumber⟩ := hrecord.areJumps.peek hmem
    exact ⟨hle, hopcode, hnumber, hrecord.areJumps.succ_not_mem hmem⟩
  · have hguarded : later.config.revisitGuard = true := by
      rw [hconfig]
      exact hguard
    refine ⟨hrecord.nodup hguarded, fun hrunning hmem => ?_⟩
    cases hreached : later.reachedLimit? with
    | some limit =>
      obtain ⟨hset, hle⟩ := Option.filter_eq_some_iff.mp hreached
      exact Or.inl ⟨limit, hset, of_decide_eq_true hle, step_of_reachedLimit hrunning hreached⟩
    | none =>
      exact Or.inr (hrecord.areJumps.step_of_guarded ⟨hguarded, hmem⟩ hrunning hreached)

/-- After eleven instructions the doubling program has taken the jump at its end once and stands
there again. The next step halts it, although it would have to jump once more. -/
theorem origins_are_jumps_taken_doubling :
    let start := ((new {} {}).load doubling).machine
    ∃ later, start.after [.step, .walk 10] = some later ∧
      jumpsTaken (start.trail [.step, .walk 10]) = [20] ∧ 20 ∈ later.origins ∧
      later.status = .running ∧ later.counter = 20 ∧ later.registers.flags = .less ∧
      later.memory.peek 20 = 0x56 ∧ later.step.answer = .ok .halted ∧
      later.step.machine = { later with status := .halted, steps := later.steps + 1 } := by
  intro start
  have hjumps : jumpsTaken (start.trail [.step, .walk 10]) = [20] := by decide +kernel
  have hseen : (start.after [.step, .walk 10]).map (fun later =>
      (later.status, later.counter, later.registers.flags, later.memory.peek 20,
        later.config.stepLimit)) =
      some (.running, 20, .less, 0x56, none) := by
    decide +kernel
  obtain ⟨later, hafter, hlater⟩ := Option.map_eq_some_iff.mp hseen
  obtain ⟨hrunning, hcounter, hflags, hbyte, hlimit⟩ : later.status = .running ∧
    later.counter = 20 ∧ later.registers.flags = .less ∧ later.memory.peek 20 = 0x56 ∧
      later.config.stepLimit = none := by simpa using hlater
  obtain ⟨hmem, -, -, hguard⟩ :=
    origins_are_jumps_taken (new {} {}) doubling [.step, .walk 10] (by simp) (by simp) later hafter
  have horigin : 20 ∈ later.origins := (hmem 20).mpr (by rw [hjumps]; simp)
  refine ⟨later, hafter, hjumps, horigin, hrunning, hcounter, hflags, hbyte, ?_⟩
  rcases (hguard rfl).2 hrunning (hcounter ▸ horigin) with ⟨limit, hset, -⟩ | hhalts
  · rw [hlimit] at hset
    cases hset
  · exact hhalts

end ByteMachine.Machine
