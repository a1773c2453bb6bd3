import ByteMachine.Memory
import ByteMachine.Opcode.Execution

/-!
# What an instruction can do

Changes of the register file that may fail, and the instructions built from them: when each
succeeds, what it then asks for, what it can fail for, and that it has touched no register by then.
A jump is the one kind of instruction that may lead elsewhere; it changes neither registers nor
sink.
-/

namespace ByteMachine

/-- A sequence of two attempts succeeds exactly when both of them do. -/
theorem bind_eq_ok_iff {α β : Type} {first : Except Fault α} {next : α → Except Fault β} {b : β} :
    (first >>= next) = .ok b ↔ ∃ a, first = .ok a ∧ next a = .ok b := by
  cases first with
  | error fault =>
    refine ⟨fun h => ?_, fun h => ?_⟩
    · cases h
    · obtain ⟨a, h, -⟩ := h
      cases h
  | ok value =>
    refine ⟨fun h => ?_, fun h => ?_⟩
    · exact ⟨value, rfl, h⟩
    · obtain ⟨a, h, hnext⟩ := h
      cases h
      exact hnext

/-- A sequence of two attempts fails exactly when one of them does. -/
theorem bind_eq_error_iff {α β : Type} {first : Except Fault α} {next : α → Except Fault β}
    {fault : Fault} :
    (first >>= next) = .error fault ↔
      first = .error fault ∨ ∃ a, first = .ok a ∧ next a = .error fault := by
  cases first with
  | error cause =>
    refine ⟨fun h => ?_, fun h => ?_⟩
    · cases h
      exact Or.inl rfl
    · rcases h with h | ⟨a, h, -⟩
      · cases h
        rfl
      · cases h
  | ok value =>
    refine ⟨fun h => ?_, fun h => ?_⟩
    · exact Or.inr ⟨value, rfl, h⟩
    · rcases h with h | ⟨a, h, hnext⟩
      · cases h
      · cases h
        exact hnext

/-- A read succeeds exactly with what the memory holds at the address. -/
theorem Memory.read_eq_ok_iff {memory : Memory} {address : Nat} {value : UInt8} :
    memory.read address = .ok value ↔ memory[address]? = some value := by
  by_cases h : address < memorySize
  · simp [Memory.read, h]
  · simp [Memory.read, h]

namespace Registers

/-- The fault of the first number that names no register. -/
def missing? (numbers : List UInt8) : Option Fault :=
  (numbers.find? fun number => 9 ≤ number.toNat).map fun number =>
    .outOfRange .register number.toNat

variable {registers after : Registers} {number : UInt8} {numbers : List UInt8} {fault : Fault}
  {α : Type} {next : UInt8 → Change α}

/-- Numbers of registers that exist are passed over. -/
theorem missing?_cons_of_lt (h : number.toNat < registerCount) (others : List UInt8) :
    missing? (number :: others) = missing? others := by
  have hle : ¬9 ≤ number.toNat := Nat.not_le.mpr h
  simp [missing?, hle]

/-- The first number that names no register is reported. -/
theorem missing?_cons_of_le (h : registerCount ≤ number.toNat) (others : List UInt8) :
    missing? (number :: others) = some (.outOfRange .register number.toNat) := by
  have hle : 9 ≤ number.toNat := h
  simp [missing?, hle]

/-- What is reported is a register. -/
theorem exists_of_missing? (h : missing? numbers = some fault) :
    ∃ number, fault = .outOfRange .register number := by
  obtain ⟨number, -, rfl⟩ := Option.map_eq_some_iff.mp h
  exact ⟨_, rfl⟩

/-- A register is read in vain exactly if it does not exist. -/
theorem read_eq_error_iff :
    registers.read number = .error fault ↔ missing? [number] = some fault := by
  rcases Nat.lt_or_ge number.toNat registerCount with hlt | hle
  · rw [read_of_lt registers hlt, missing?_cons_of_lt hlt]
    simp [missing?]
  · rw [read_of_le registers hle, missing?_cons_of_le hle]
    simp

/-- A change that begins with the value of a register succeeds exactly when the register exists and
the rest succeeds with its value. -/
theorem run_lookUp_bind_eq_ok_iff {result : α} :
    (lookUp number >>= next).run registers = .ok result after ↔
      ∃ value, registers.read number = .ok value ∧
        (next value).run registers = .ok result after := by
  rw [EStateM.run_bind, run_lookUp]
  cases registers.read number <;> simp

/-- A change that begins with the value of a register fails with the file as it was, or as the rest
does. -/
theorem run_lookUp_bind_eq_error_iff :
    (lookUp number >>= next).run registers = .error fault after ↔
      (registers.read number = .error fault ∧ after = registers) ∨
        ∃ value, registers.read number = .ok value ∧
          (next value).run registers = .error fault after := by
  rw [EStateM.run_bind, run_lookUp]
  cases registers.read number with
  | ok value => simp
  | error cause => simp [eq_comm]

/-- A change that fails exactly for the first of some numbers that names no register, and that has
changed nothing by then. -/
def Change.FailsFor (numbers : List UInt8) (change : Change α) : Prop :=
  ∀ registers after fault, change.run registers = .error fault after ↔
    missing? numbers = some fault ∧ after = registers

/-- A write fails for its register. -/
theorem write_failsFor (number value : UInt8) : (write number value).FailsFor [number] := by
  intro registers after fault
  rcases Nat.lt_or_ge number.toNat registerCount with hlt | hle
  · rw [run_write_of_lt registers value hlt, missing?_cons_of_lt hlt]
    simp [missing?]
  · rw [run_write_of_le registers value hle, missing?_cons_of_le hle]
    simp [eq_comm]

/-- To look up a register and go on with its value fails for this register, or for those that the
rest fails for. -/
theorem lookUp_bind_failsFor
    (hnext : number.toNat < registerCount → ∀ value, (next value).FailsFor numbers) :
    (lookUp number >>= next).FailsFor (number :: numbers) := by
  intro registers after fault
  rw [run_lookUp_bind_eq_error_iff]
  rcases Nat.lt_or_ge number.toNat registerCount with hlt | hle
  · simp [read_of_lt registers hlt, missing?_cons_of_lt hlt, hnext hlt _ registers after fault]
  · simp [read_of_le registers hle, missing?_cons_of_le hle]

/-- An operation fails for its two registers, the first one first. -/
theorem compute_failsFor (operation : Arithmetic) (a b : UInt8) :
    (compute operation a b).FailsFor [a, b] := by
  refine lookUp_bind_failsFor fun ha left => lookUp_bind_failsFor fun _ right => ?_
  -- The register that is written has been looked up before.
  intro registers after fault
  rw [write_failsFor a _ registers after fault, missing?_cons_of_lt ha]

/-- A comparison fails for its two registers, the first one first. -/
theorem compare_failsFor (a b : UInt8) : (compare a b).FailsFor [a, b] := by
  refine lookUp_bind_failsFor fun _ left => lookUp_bind_failsFor fun _ right => ?_
  intro registers after fault
  simp [missing?]

end Registers

namespace Opcode

/-- The instructions that may go on somewhere else. -/
def IsJump (op : Opcode) : Prop :=
  op = .jmp ∨ op = .jeq ∨ op = .jne

/-- A byte is read as an instruction exactly when it is the byte of that instruction. -/
theorem ofByte_eq_ok_iff {byte : UInt8} {op : Opcode} : ofByte byte = .ok op ↔ op.byte = byte := by
  rw [← ofByte?_eq_some_iff, ofByte]
  cases ofByte? byte <;> simp

/-- A byte is refused only for not being the byte of an instruction. -/
theorem fault_of_ofByte {byte : UInt8} {fault : Fault} (h : ofByte byte = .error fault) :
    fault = .unknownOpcode byte := by
  unfold ofByte at h
  split at h
  · cases h
  · cases h
    rfl

/-- An instruction that does not stop the machine is at least two bytes long. -/
theorem two_le_increment_fields {op : Opcode} (h : op ≠ .hlt) : 2 ≤ op.fields.increment := by
  cases op with
  | hlt => exact absurd rfl h
  | _ => decide

/-- A conditional jump that succeeds asks for the jump exactly when its condition holds. -/
theorem jumpIf_eq_ok_iff {condition : Bool} {registers : Registers} {a : UInt8}
    {request : Request} :
    jumpIf condition registers a = .ok request ↔
      (condition = true ∧ ∃ target, registers.read a = .ok target ∧ request = .jump target) ∨
        (condition = false ∧ request = .advance) := by
  cases condition with
  | false => simp [jumpIf, pure, Except.pure, eq_comm]
  | true =>
    change (registers.read a >>= fun target => Except.ok (Request.jump target)) = _ ↔ _
    rw [bind_eq_ok_iff]
    simp [eq_comm]

/-- A change of the registers that succeeds asks to go on behind the instruction. -/
theorem changing_eq_ok_iff {change : Registers.Change Unit} {registers after : Registers}
    {sink printed : Sink} {request : Request} :
    changing change registers sink = ⟨.ok request, after, printed⟩ ↔
      change.run registers = .ok () after ∧ request = .advance ∧ printed = sink := by
  unfold changing
  cases change.run registers with
  | error fault left => simp
  | ok _ left =>
    simp only [Effect.mk.injEq, Except.ok.injEq, EStateM.Result.ok.injEq, true_and]
    refine ⟨fun h => ?_, fun h => ?_⟩
    · obtain ⟨rfl, rfl, rfl⟩ := h
      exact ⟨rfl, rfl, rfl⟩
    · obtain ⟨rfl, rfl, rfl⟩ := h
      exact ⟨rfl, rfl, rfl⟩

/-- Printing succeeds exactly when the register exists and its line fits. -/
theorem print_eq_ok_iff {registers after : Registers} {sink printed : Sink} {a : UInt8}
    {request : Request} :
    print registers sink a = ⟨.ok request, after, printed⟩ ↔
      ∃ value, registers.read a = .ok value ∧ sink.fits (Sink.line value) = true ∧
        after = registers ∧ request = .advance ∧ printed = sink.write (Sink.line value) := by
  unfold print
  cases hread : registers.read a with
  | error fault => simp
  | ok value =>
    cases hfits : sink.fits (Sink.line value) with
    | false => simp [hfits]
    | true =>
      simp only [hfits, if_true, Effect.mk.injEq, Except.ok.injEq]
      refine ⟨fun h => ?_, fun h => ?_⟩
      · obtain ⟨rfl, rfl, rfl⟩ := h
        exact ⟨value, rfl, hfits, rfl, rfl, rfl⟩
      · obtain ⟨_, rfl, -, rfl, rfl, rfl⟩ := h
        exact ⟨rfl, rfl, rfl⟩

/-- What an executed instruction can ask for. Only the stop instruction asks to stop, and only a
jump whose register exists asks for a jump; it changes neither registers nor sink. -/
theorem execute_cases {op : Opcode} {registers after : Registers} {sink printed : Sink}
    {a b : UInt8} {request : Request}
    (h : op.execute registers sink a b = ⟨.ok request, after, printed⟩) :
    (op = .hlt ∧ request = .halt ∧ after = registers ∧ printed = sink) ∨
      (op ≠ .hlt ∧ request = .advance) ∨
        ∃ target, op.IsJump ∧ registers.read a = .ok target ∧ request = .jump target ∧
          after = registers ∧ printed = sink := by
  have jump {condition : Bool} (hop : op.IsJump) (hne : op ≠ .hlt)
      (hjump : Effect.mk (jumpIf condition registers a) registers sink =
        ⟨.ok request, after, printed⟩) :
      (op ≠ .hlt ∧ request = .advance) ∨
        ∃ target, op.IsJump ∧ registers.read a = .ok target ∧ request = .jump target ∧
          after = registers ∧ printed = sink := by
    injection hjump with houtcome hregisters hsink
    rcases jumpIf_eq_ok_iff.mp houtcome with ⟨-, target, hread, rfl⟩ | ⟨-, rfl⟩
    · exact Or.inr ⟨target, hop, hread, rfl, hregisters.symm, hsink.symm⟩
    · exact Or.inl ⟨hne, rfl⟩
  cases op with
  | hlt =>
    cases h
    exact Or.inl ⟨rfl, rfl, rfl, rfl⟩
  | prn =>
    obtain ⟨value, -, -, -, hrequest, -⟩ := print_eq_ok_iff.mp h
    exact Or.inr (Or.inl ⟨by decide, hrequest⟩)
  | ldi | mul | cmp => exact Or.inr (Or.inl ⟨by decide, (changing_eq_ok_iff.mp h).2.1⟩)
  | jmp | jeq | jne => exact Or.inr (jump (by simp [IsJump]) (by decide) h)

/-- Only the stop instruction asks to stop, and it always does. -/
theorem request_eq_halt_iff {op : Opcode} {registers after : Registers} {sink printed : Sink}
    {a b : UInt8} {request : Request}
    (h : op.execute registers sink a b = ⟨.ok request, after, printed⟩) :
    request = .halt ↔ op = .hlt := by
  rcases execute_cases h with ⟨rfl, rfl, -⟩ | ⟨hop, rfl⟩ | ⟨target, hop, -, rfl, -⟩
  · exact iff_of_true rfl rfl
  · exact iff_of_false (by simp) hop
  · refine iff_of_false (by simp) ?_
    rcases hop with rfl | rfl | rfl <;> simp

section Failure

variable {registers after : Registers} {sink printed : Sink} {a b : UInt8} {fault : Fault}

/-- A change of the registers fails as it does by itself, and leaves what it leaves by itself. -/
theorem changing_eq_error_iff {change : Registers.Change Unit} :
    changing change registers sink = ⟨.error fault, after, printed⟩ ↔
      change.run registers = .error fault after ∧ printed = sink := by
  unfold changing
  cases change.run registers with
  | ok _ left => simp
  | error cause left => simp [and_assoc, eq_comm]

/-- A conditional jump fails for its register, and only if its condition holds. -/
theorem jumpIf_eq_error_iff (condition : Bool) :
    jumpIf condition registers a = .error fault ↔
      Registers.missing? (if condition then [a] else []) = some fault := by
  cases condition with
  | false => simp [jumpIf, Registers.missing?, pure, Except.pure]
  | true =>
    change (registers.read a >>= fun target => Except.ok (Request.jump target)) = _ ↔ _
    rw [bind_eq_error_iff, Registers.read_eq_error_iff]
    simp

/-- Printing fails for a register that does not exist, or because the line does not fit; it changes
no register. -/
theorem of_print_eq_error (h : print registers sink a = ⟨.error fault, after, printed⟩) :
    ((∃ number, fault = .outOfRange .register number) ∨ fault = .output sink.refusal) ∧
      after = registers := by
  unfold print at h
  cases hread : registers.read a with
  | error cause =>
    rw [hread] at h
    cases h
    exact ⟨Or.inl (Registers.exists_of_missing? (Registers.read_eq_error_iff.mp hread)), rfl⟩
  | ok value =>
    simp only [hread, Effect.mk.injEq] at h
    obtain ⟨houtcome, rfl, -⟩ := h
    split at houtcome
    · cases houtcome
    · cases houtcome
      exact ⟨Or.inr rfl, rfl⟩

/-- An instruction fails for a register that does not exist, or because the sink refuses a line, and
no register has changed by then. -/
theorem of_execute_eq_error {op : Opcode}
    (h : op.execute registers sink a b = ⟨.error fault, after, printed⟩) :
    ((∃ number, fault = .outOfRange .register number) ∨
      (op = .prn ∧ fault = .output sink.refusal)) ∧ after = registers := by
  have change {change : Registers.Change Unit} {numbers : List UInt8}
      (hfails : change.FailsFor numbers)
      (hchanging : changing change registers sink = ⟨.error fault, after, printed⟩) :
      ((∃ number, fault = .outOfRange .register number) ∨
        (op = .prn ∧ fault = .output sink.refusal)) ∧ after = registers := by
    obtain ⟨hmissing, hafter⟩ := (hfails _ _ _).mp (changing_eq_error_iff.mp hchanging).1
    exact ⟨Or.inl (Registers.exists_of_missing? hmissing), hafter⟩
  have jump (condition : Bool)
      (hjump : Effect.mk (jumpIf condition registers a) registers sink =
        ⟨.error fault, after, printed⟩) :
      ((∃ number, fault = .outOfRange .register number) ∨
        (op = .prn ∧ fault = .output sink.refusal)) ∧ after = registers := by
    injection hjump with houtcome hregisters hsink
    have hmissing := (jumpIf_eq_error_iff condition).mp houtcome
    exact ⟨Or.inl (Registers.exists_of_missing? hmissing), hregisters.symm⟩
  cases op with
  | hlt => cases h
  | prn =>
    obtain ⟨hnumber | hrefused, hafter⟩ := of_print_eq_error h
    · exact ⟨Or.inl hnumber, hafter⟩
    · exact ⟨Or.inr ⟨rfl, hrefused⟩, hafter⟩
  | ldi => exact change (Registers.write_failsFor a b) h
  | mul => exact change (Registers.compute_failsFor .mul a b) h
  | cmp => exact change (Registers.compare_failsFor a b) h
  | jmp => exact jump true h
  | jeq => exact jump registers.flags.isEqual h
  | jne => exact jump (!registers.flags.isEqual) h

end Failure

/-- A jump whose register exists can always be executed; whether it is taken or not, it changes
neither registers nor sink. -/
theorem IsJump.execute {op : Opcode} (hop : op.IsJump) {registers : Registers} {a target : UInt8}
    (hread : registers.read a = .ok target) (sink : Sink) (b : UInt8) :
    ∃ request, op.execute registers sink a b = ⟨.ok request, registers, sink⟩ ∧
      (request = .jump target ∨ request = .advance) := by
  have jump (condition : Bool) :
      ∃ request, jumpIf condition registers a = .ok request ∧
        (request = .jump target ∨ request = .advance) := by
    cases condition with
    | true => exact ⟨.jump target, jumpIf_eq_ok_iff.mpr (by simp [hread]), Or.inl rfl⟩
    | false => exact ⟨.advance, rfl, Or.inr rfl⟩
  rcases hop with rfl | rfl | rfl
  · obtain ⟨request, h, hrequest⟩ := jump true
    exact ⟨request, by rw [Opcode.execute, h], hrequest⟩
  · obtain ⟨request, h, hrequest⟩ := jump registers.flags.isEqual
    exact ⟨request, by rw [Opcode.execute, h], hrequest⟩
  · obtain ⟨request, h, hrequest⟩ := jump (!registers.flags.isEqual)
    exact ⟨request, by rw [Opcode.execute, h], hrequest⟩

end Opcode

/-- The sink after one instruction: the same one, or the same one with a line written to it, whole
or cut. -/
def Sink.Follows (before after : Sink) : Prop :=
  after = before ∨ ∃ value, after = before.write (line value)

/-- What has been printed stays in front of the line. -/
theorem Sink.Follows.contents_isPrefix {before after : Sink} (h : before.Follows after) :
    before.contents.toList <+: after.contents.toList := by
  rcases h with rfl | ⟨value, rfl⟩
  · exact List.prefix_rfl
  · rw [write_contents]
    exact List.prefix_append _ _

/-- An instruction writes at most one line, whether it succeeds or not. -/
theorem Opcode.execute_follows (op : Opcode) (registers : Registers) (sink : Sink) (a b : UInt8) :
    sink.Follows (op.execute registers sink a b).sink := by
  by_cases hop : op = .prn
  · subst hop
    change sink.Follows (print registers sink a).sink
    unfold print
    cases registers.read a with
    | error fault => exact Or.inl rfl
    | ok value => exact Or.inr ⟨value, rfl⟩
  · exact Or.inl (execute_sink hop registers sink a b)

end ByteMachine
