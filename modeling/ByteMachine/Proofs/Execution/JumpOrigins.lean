import ByteMachine.Proofs.Execution.Stepping

/-!
# What stands at a jump origin

As long as nothing writes to the memory, every origin still holds the jump that was taken from
there: a jump opcode, and behind it the number of a register that exists. No such number is a jump
opcode, so no two origins are neighbours, and there are at most 127.
-/

namespace ByteMachine

/-- Ascending addresses without neighbours fill at most every other place. -/
theorem Origins.two_mul_length_le (low high : Nat) {addresses : List Nat}
    (hascending : addresses.Pairwise (· < ·))
    (hbounds : ∀ address ∈ addresses, low ≤ address ∧ address < high)
    (hapart : ∀ address ∈ addresses, address + 1 ∉ addresses) :
    2 * addresses.length ≤ high + 1 - low := by
  induction addresses generalizing low with
  | nil => simp
  | cons first others ih =>
    obtain ⟨hfirst, hothers⟩ := List.pairwise_cons.mp hascending
    obtain ⟨hlow, hhigh⟩ := hbounds first (by simp)
    have hbounds' : ∀ address ∈ others, first + 2 ≤ address ∧ address < high := by
      intro address hmem
      have hlt := hfirst address hmem
      have hne : address ≠ first + 1 := by
        intro heq
        subst heq
        exact hapart first (by simp) (by simp [hmem])
      exact ⟨by omega, (hbounds address (by simp [hmem])).2⟩
    have hapart' : ∀ address ∈ others, address + 1 ∉ others := by
      intro address hmem hnext
      exact hapart address (by simp [hmem]) (by simp [hnext])
    have hlength := ih (first + 2) hothers hbounds' hapart'
    simp only [List.length_cons]
    omega

/-- The byte of a jump is not the number of a register. -/
theorem Opcode.IsJump.registerCount_le {op : Opcode} (h : op.IsJump) :
    registerCount ≤ op.byte.toNat := by
  rcases h with rfl | rfl | rfl <;> decide

/-- A jump whose register exists stands at an address, and can be executed there. -/
def Memory.JumpAt (memory : Memory) (address : Nat) : Prop :=
  ∃ (op : Opcode) (a : UInt8), op.IsJump ∧ memory[address]? = some op.byte ∧
    memory[address + 1]? = some a ∧ a.toNat < registerCount ∧ address + 2 < memorySize

namespace Machine

/-- Every origin holds a jump whose register exists. -/
def OriginsAreJumps (machine : Machine) : Prop :=
  ∀ address ∈ machine.origins, machine.memory.JumpAt address

/-- A loaded machine has no origins yet. -/
theorem originsAreJumps_loaded (config : Config) (sink : Sink) (image : Image) :
    (loaded config sink image).OriginsAreJumps := by
  intro address hmem
  exact absurd hmem (Origins.not_mem_empty address)

/-- A step adds no origin, or that of the jump it takes. -/
theorem step_origins (machine : Machine) :
    machine.step.machine.origins = machine.origins ∨
      (machine.step.machine.origins = machine.origins.insert machine.counter ∧
        machine.memory.JumpAt machine.counter) := by
  rcases machine.step_idle_or_executes with ⟨sink, -, hmachine, -⟩ |
    ⟨op, a, b, registers, request, sink, h⟩
  · rw [hmachine]
    exact Or.inl rfl
  · rcases h.step_cases with ⟨-, hmachine⟩ | ⟨hrequest, -, -, hmachine⟩
    · rw [hmachine]
      exact Or.inl rfl
    · rw [hmachine]
      rcases h.proceed_cases hrequest with ⟨-, hadvance⟩ | ⟨target, hop, hread, -, -, hjump⟩
      · rw [hadvance]
        exact Or.inl rfl
      · obtain ⟨hopcode, ha, -⟩ := fetch_eq_ok_iff.mp (decode_eq_ok_iff.mp h.decoded)
        have hnumber : a.toNat < registerCount := by
          by_contra hle
          rw [Registers.read_of_le _ (by omega)] at hread
          cases hread
        rw [hjump]
        exact Or.inr ⟨rfl, op, a, hop, hopcode, ha, hnumber, h.counter_lt⟩

namespace OriginsAreJumps

variable {machine : Machine}

/-- A step keeps jumps at all origins. -/
theorem step (h : machine.OriginsAreJumps) : machine.step.machine.OriginsAreJumps := by
  intro address hmem
  rw [step_memory]
  rcases machine.step_origins with hsame | ⟨hinsert, hjump⟩
  · exact h address (hsame ▸ hmem)
  · rw [hinsert, Origins.mem_insert] at hmem
    rcases hmem with rfl | hmem
    · exact hjump
    · exact h address hmem

/-- Any number of steps keeps jumps at all origins. -/
theorem stepped (h : machine.OriginsAreJumps) (calls : Nat) :
    (machine.stepped calls).OriginsAreJumps := by
  induction calls with
  | zero => exact h
  | succ calls ih =>
    rw [stepped_succ]
    exact ih.step

/-- No two origins are neighbours. -/
theorem succ_not_mem (h : machine.OriginsAreJumps) {address : Nat}
    (hmem : address ∈ machine.origins) : address + 1 ∉ machine.origins := by
  intro hnext
  obtain ⟨-, a, -, -, ha, hlt, -⟩ := h address hmem
  obtain ⟨op, -, hop, hopcode, -⟩ := h (address + 1) hnext
  have hle := hop.registerCount_le
  rw [ha, Option.some.injEq] at hopcode
  rw [← hopcode] at hle
  omega

/-- There are at most 127 origins. -/
theorem size_le (h : machine.OriginsAreJumps) : machine.origins.size ≤ 127 := by
  have hlength := Origins.two_mul_length_le 0 254 machine.origins.ascending
    (fun address hmem => by
      obtain ⟨-, -, -, -, -, -, hlt⟩ := h address hmem
      change address + 2 < 256 at hlt
      omega)
    (fun address hmem => h.succ_not_mem hmem)
  unfold Origins.size
  omega

end OriginsAreJumps

end Machine

end ByteMachine
