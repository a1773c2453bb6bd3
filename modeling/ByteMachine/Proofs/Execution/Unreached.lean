import ByteMachine.Proofs.Execution.Control

/-!
# Memory that is not reached

A step fetches three bytes, whatever the instruction needs, but it looks only at the first one and
at as many operands as this one declares. So a machine steps alike with any other memory that agrees
on these bytes (`step_withMemory`), and as long as this is so at every instruction that it comes to,
it never notices the difference (`stepped_withMemory`). The same address may be an operand at one
time and an instruction at another, so agreement is asked for anew with every step. The journal does
show the bytes that are fetched in vain, which is why nothing is said about events here.
-/

namespace ByteMachine

/-- Two memories agree on the instruction at an address: on its first byte, and on as many operand
bytes behind it as the first byte declares. -/
def Memory.AgreeAt (first second : Memory) (address : Nat) : Prop :=
  ∀ offset ≤ (Fields.ofByte (first.peek address)).operandCount.toNat,
    address + offset < memorySize → second.peek (address + offset) = first.peek (address + offset)

instance (first second : Memory) (address : Nat) : Decidable (first.AgreeAt second address) :=
  inferInstanceAs (Decidable (∀ offset ≤ _, _))

/-- An instruction looks at the operands that it declares and at no others. -/
theorem Opcode.execute_of_operands (op : Opcode) (registers : Registers) (sink : Sink)
    {a a' b b' : UInt8} (ha : 1 ≤ op.fields.operandCount.toNat → a' = a)
    (hb : 2 ≤ op.fields.operandCount.toNat → b' = b) :
    op.execute registers sink a' b' = op.execute registers sink a b := by
  cases op with
  | hlt => rfl
  | ldi | mul | cmp => rw [ha (by decide), hb (by decide)]
  | prn | jmp | jeq | jne =>
    rw [ha (by decide)]
    rfl

namespace Machine

/-- The machine with another memory. -/
def withMemory (memory : Memory) (machine : Machine) : Machine :=
  { machine with memory }

variable {machine : Machine} {memory : Memory}

/-- The memory takes no part in where a machine settles. -/
theorem sparesControl_withMemory (memory : Memory) : SparesControl (withMemory memory) where
  counter _ := rfl
  steps _ := rfl
  origins _ := rfl
  halted _ := rfl
  moved _ _ _ := rfl

/-- Nothing is decoded from either of two memories that agree, or the same instruction with the same
operands, as far as it declares them. -/
theorem decode_withMemory (h : machine.memory.AgreeAt memory machine.counter) :
    (∃ fault, machine.decode = .error fault ∧
        (machine.withMemory memory).decode = .error fault) ∨
      ∃ op a b a' b', machine.decode = .ok (op, a, b) ∧
        (machine.withMemory memory).decode = .ok (op, a', b') ∧
          (1 ≤ op.fields.operandCount.toNat → a' = a) ∧
            (2 ≤ op.fields.operandCount.toNat → b' = b) := by
  by_cases hmissed : memorySize ≤ machine.counter + 2
  · have hother : memorySize ≤ (machine.withMemory memory).counter + 2 := hmissed
    exact Or.inl ⟨_, decode_of_missed hmissed, decode_of_missed hother⟩
  · have hwithin : machine.counter + 2 < memorySize := Nat.not_le.mp hmissed
    have hother : (machine.withMemory memory).counter + 2 < memorySize := hwithin
    have hfirst := decode_of_within hwithin
    have hsecond := decode_of_within hother
    have hopcode : (machine.withMemory memory).memory.peek (machine.withMemory memory).counter =
        machine.memory.peek machine.counter := h 0 (Nat.zero_le _) (by omega)
    rw [hopcode] at hsecond
    cases hop : Opcode.ofByte (machine.memory.peek machine.counter) with
    | error fault =>
      rw [hop] at hfirst hsecond
      exact Or.inl ⟨fault, hfirst, hsecond⟩
    | ok op =>
      rw [hop] at hfirst hsecond
      have hdeclared {offset : Nat} (hle : offset ≤ op.fields.operandCount.toNat)
          (hlt : machine.counter + offset < memorySize) :
          memory.peek (machine.counter + offset) =
            machine.memory.peek (machine.counter + offset) := by
        rw [Opcode.fields, Opcode.ofByte_eq_ok_iff.mp hop] at hle
        exact h offset hle hlt
      exact Or.inr ⟨op, _, _, _, _, hfirst, hsecond, fun hle => hdeclared hle (by omega),
        fun hle => hdeclared hle (by omega)⟩

/-- A machine comes to the same instruction with another memory that agrees there. -/
theorem Dispatches.withMemory {op : Opcode} {a b : UInt8} (h : machine.Dispatches op a b)
    (hagrees : machine.memory.AgreeAt memory machine.counter) :
    ∃ a' b', (machine.withMemory memory).Dispatches op a' b' ∧
      ∀ registers sink, op.execute registers sink a' b' = op.execute registers sink a b := by
  rcases decode_withMemory hagrees with
    ⟨fault, hdecode, -⟩ | ⟨_, _, _, a', b', hdecode, hother, ha, hb⟩
  · rw [h.decoded] at hdecode
    cases hdecode
  · rw [h.decoded] at hdecode
    cases hdecode
    exact ⟨a', b', ⟨h.running, h.belowLimit, hother⟩,
      fun registers sink => op.execute_of_operands registers sink ha hb⟩

/-- A step answers alike and does the same with another memory, if this agrees on the instruction
that a running machine has come to. -/
theorem step_withMemory
    (h : machine.status = .running → machine.memory.AgreeAt memory machine.counter) :
    (machine.withMemory memory).step.answer = machine.step.answer ∧
      (machine.withMemory memory).step.machine = machine.step.machine.withMemory memory := by
  have hstatus {status : Status} (hmachine : machine.status = status) :
      (machine.withMemory memory).status = status := hmachine
  cases machine.stage with
  | halted hhalted =>
    rw [step_halted hhalted, step_halted (hstatus hhalted)]
    exact ⟨rfl, rfl⟩
  | limited hrunning hreached =>
    rw [step_of_reachedLimit hrunning hreached,
      step_of_reachedLimit (hstatus hrunning) hreached]
    exact ⟨rfl, rfl⟩
  | @undecoded fault hrunning hbelow hdecode =>
    have hother : (machine.withMemory memory).decode = .error fault := by
      rcases decode_withMemory (h hrunning) with ⟨_, hfault, hother⟩ | ⟨_, _, _, _, _, hok, -⟩
      · rw [hother, ← hfault, hdecode]
      · rw [hdecode] at hok
        cases hok
    rw [step_of_undecoded hrunning hbelow hdecode,
      step_of_undecoded (hstatus hrunning) hbelow hother]
    exact ⟨rfl, rfl⟩
  | refused hdispatches hrefused =>
    obtain ⟨a', b', hother, hsame⟩ := hdispatches.withMemory (h hdispatches.running)
    rw [hdispatches.step_of_refused hrefused,
      hother.step_of_refused ((hsame _ _).trans hrefused)]
    exact ⟨rfl, rfl⟩
  | @executes op a b registers request sink hexecutes =>
    obtain ⟨a', b', hother, hsame⟩ := hexecutes.toDispatches.withMemory (h hexecutes.running)
    have hsecond : (machine.withMemory memory).Executes op a' b' registers request sink :=
      ⟨hother, (hsame _ _).trans hexecutes.executed⟩
    have hresults : (machine.withMemory memory).withResults registers sink =
        (machine.withResults registers sink).withMemory memory := rfl
    rw [hexecutes.step_eq, hsecond.step_eq, hresults,
      (sparesControl_withMemory memory).settle (Or.inr Iff.rfl)]
    simp only [Turn.answer_reporting, Turn.machine_reporting]
    exact ⟨rfl, rfl⟩

/-- Steps in a row answer alike and do the same with another memory, as long as this agrees on every
instruction that the machine comes to. -/
theorem stepped_withMemory {calls : Nat}
    (h : ∀ earlier < calls, (machine.stepped earlier).status = .running →
      machine.memory.AgreeAt memory (machine.stepped earlier).counter) :
    (∀ earlier < calls, ((machine.withMemory memory).stepped earlier).step.answer =
        (machine.stepped earlier).step.answer) ∧
      (machine.withMemory memory).stepped calls = (machine.stepped calls).withMemory memory := by
  induction calls with
  | zero => exact ⟨fun earlier hlt => absurd hlt (Nat.not_lt_zero earlier), rfl⟩
  | succ calls ih =>
    obtain ⟨hanswers, hmachine⟩ := ih fun earlier hlt => h earlier (Nat.lt_succ_of_lt hlt)
    have hagrees := h calls (Nat.lt_succ_self calls)
    rw [← stepped_memory machine calls] at hagrees
    obtain ⟨hanswer, hnext⟩ := step_withMemory hagrees
    rw [← hmachine] at hanswer hnext
    refine ⟨fun earlier hlt => ?_, ?_⟩
    · rcases Nat.lt_succ_iff_lt_or_eq.mp hlt with hearlier | rfl
      · exact hanswers earlier hearlier
      · exact hanswer
    · rw [stepped_succ, stepped_succ, hnext]

/-- Two programs that agree on every instruction that the first one comes to, with the operands that
the instruction declares, make the same of a machine but for its memory. -/
theorem unreached_memory_is_irrelevant (machine other : Machine)
    (hconfig : other.config = machine.config) (hsink : other.sink = machine.sink)
    (first second : Image) (calls : Nat)
    (hagrees : ∀ earlier < calls, ((machine.load first).machine.stepped earlier).status = .running →
      first.memory.AgreeAt second.memory ((machine.load first).machine.stepped earlier).counter) :
    (∀ earlier < calls, ((other.load second).machine.stepped earlier).step.answer =
        ((machine.load first).machine.stepped earlier).step.answer) ∧
      (other.load second).machine.stepped calls =
        { (machine.load first).machine.stepped calls with memory := second.memory } ∧
      Opcode.hlt.fields.operandCount = 0 ∧
      ∀ op ∈ [Opcode.prn, .jmp, .jeq, .jne], op.fields.operandCount = 1 := by
  have hother : (other.load second).machine =
      (machine.load first).machine.withMemory second.memory := by
    rw [load_machine, load_machine, hconfig, hsink]
    rfl
  obtain ⟨hanswers, hmachine⟩ := stepped_withMemory hagrees
  rw [hother]
  exact ⟨hanswers, hmachine, by decide, by decide⟩

/-- A program prints, jumps to an operand of its first instruction, and is stopped by it. Two more
bytes behind its last instruction are fetched with this one, but nothing comes of them. -/
theorem unreached_memory_is_irrelevant_jumpBack :
    let first : Image := ⟨[0x82, 1, 1, 0x82, 0, 2, 0x47, 0, 0x54, 0], by decide⟩
    let second : Image := ⟨first.program ++ [0x99, 0x55], by decide⟩
    let machine := new { stepLimit := some 5 } {}
    (∀ earlier < 7, ((machine.load first).machine.stepped earlier).status = .running →
      first.memory.AgreeAt second.memory ((machine.load first).machine.stepped earlier).counter) ∧
    (machine.load second).machine.stepped 7 =
      { (machine.load first).machine.stepped 7 with memory := second.memory } ∧
    ((machine.load second).machine.stepped 7).status = .halted ∧
    ((machine.load second).machine.stepped 7).counter = 2 ∧
    ((machine.load second).machine.stepped 7).sink.text = "2\n" := by
  intro first second machine
  have hagrees : ∀ earlier < 7, ((machine.load first).machine.stepped earlier).status = .running →
      first.memory.AgreeAt second.memory
        ((machine.load first).machine.stepped earlier).counter := by
    decide +kernel
  obtain ⟨-, hmachine, -⟩ :=
    unreached_memory_is_irrelevant machine machine rfl rfl first second 7 hagrees
  exact ⟨hagrees, hmachine, by decide +kernel, by decide +kernel, by decide +kernel⟩

end Machine

end ByteMachine
