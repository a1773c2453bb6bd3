import ByteMachine.Proofs.Execution.Horizon
import ByteMachine.Proofs.Execution.InstructionSet

/-!
# Programs without jumps

A program that loads, prints, multiplies and compares, and then stops, has a meaning of its own: the
registers and the printed values that its statements make of nothing, one after the other. The
machine computes it. What carries the proof is that after some statements the counter stands behind
the bytes that spell them (`Executed`).

Three bytes are fetched for the stop instruction, too. A program that leaves less room than that
behind its last statement does all it should and fails only where it should stop.
-/

namespace ByteMachine

/-- A statement that neither jumps nor stops. Its operands are registers that exist. -/
inductive Statement where
  | ldi (a : Fin registerCount) (value : UInt8)
  | prn (a : Fin registerCount)
  | mul (a b : Fin registerCount)
  | cmp (a b : Fin registerCount)
  deriving DecidableEq, Repr

/-- What has been computed, and the values that have been printed, in order. -/
structure Results where
  registers : Registers := { cells := .replicate registerCount 0, flags := .none }
  printed : List UInt8 := []
  deriving DecidableEq, Repr

/-- The printed values as text, each on a line of its own. -/
def Results.text (results : Results) : List Char :=
  results.printed.flatMap fun value => (toString value.toNat).toList ++ ['\n']

namespace Statement

/-- The bytes that spell a statement. -/
def bytes : Statement → List UInt8
  | ldi a value => [0x82, UInt8.ofNat a, value]
  | prn a => [0x47, UInt8.ofNat a]
  | mul a b => [0xA2, UInt8.ofNat a, UInt8.ofNat b]
  | cmp a b => [0xA7, UInt8.ofNat a, UInt8.ofNat b]

/-- What a statement makes of earlier results. -/
def meaning (statement : Statement) (results : Results) : Results :=
  let cells := results.registers.cells
  match statement with
  | ldi a value => { results with registers.cells := cells.set a value a.isLt }
  | prn a => { results with printed := results.printed ++ [cells.get a] }
  | mul a b =>
    let product := UInt8.ofNat ((cells.get a).toNat * (cells.get b).toNat % 256)
    { results with registers.cells := cells.set a product a.isLt }
  | cmp a b =>
    let flags :=
      match compare (cells.get a).toNat (cells.get b).toNat with
      | .lt => Flags.less
      | .eq => Flags.equal
      | .gt => Flags.greater
    { results with registers.flags := flags }

/-- The bytes that spell a program. -/
def encode (program : List Statement) : List UInt8 :=
  program.flatMap bytes

/-- The last statement of a program is spelled last. -/
theorem encode_concat (program : List Statement) (statement : Statement) :
    encode (program ++ [statement]) = encode program ++ statement.bytes := by
  simp [encode]

/-- A program that is loaded stands at the beginning of memory, the stop instruction and zeros
behind it. -/
theorem memory_of_encode {image : Image} {program : List Statement}
    (h : image.program = encode program ++ [0x01]) :
    image.memory.toList =
      encode program ++ 0x01 :: List.replicate (255 - (encode program).length) 0 := by
  have hsize : memorySize - image.size = 255 - (encode program).length := by
    rw [Image.size, h, List.length_append]
    exact Nat.add_sub_add_right 255 1 _
  rw [Image.memory_toList, Image.bytes, hsize, h, List.append_assoc]
  rfl

end Statement

namespace Results

/-- What a program makes of nothing, one statement after the other. -/
def ofProgram (program : List Statement) : Results :=
  program.foldl (fun results statement => statement.meaning results) {}

/-- The last statement of a program makes the final results out of those before. -/
theorem ofProgram_concat (program : List Statement) (statement : Statement) :
    ofProgram (program ++ [statement]) = statement.meaning (ofProgram program) := by
  simp [ofProgram]

end Results

namespace Registers

/-- The number of a register locates it. -/
theorem locate_ofNat (place : Fin registerCount) : locate (UInt8.ofNat place) = .ok place := by
  have hplace : (place : Nat) < 9 := place.isLt
  have hnumber : (UInt8.ofNat place).toNat = place :=
    UInt8.toNat_ofNat_of_lt' (hplace.trans (by decide))
  have hlt : (UInt8.ofNat place).toNat < registerCount := lt_of_eq_of_lt hnumber hplace
  rw [locate_of_lt hlt]
  exact congrArg Except.ok (Fin.ext hnumber)

variable (registers : Registers)

/-- A register that exists is read. -/
theorem read_ofNat (place : Fin registerCount) :
    registers.read (UInt8.ofNat place) = .ok (registers.cells.get place) := by
  rw [read, locate_ofNat]
  rfl

/-- A register that exists is written. -/
theorem run_write_ofNat (place : Fin registerCount) (value : UInt8) :
    (write (UInt8.ofNat place) value).run registers =
      .ok () { registers with cells := registers.cells.set place value place.isLt } := by
  rw [write, locate_ofNat]
  rfl

/-- An operation on registers that exist succeeds. -/
theorem run_compute_ofNat (operation : Arithmetic) (a b : Fin registerCount) :
    (compute operation (UInt8.ofNat a) (UInt8.ofNat b)).run registers =
      .ok () { registers with
        cells := registers.cells.set a
          (operation.apply (registers.cells.get a) (registers.cells.get b)) a.isLt } := by
  refine run_lookUp_bind_eq_ok_iff.mpr ⟨_, read_ofNat registers a, ?_⟩
  refine run_lookUp_bind_eq_ok_iff.mpr ⟨_, read_ofNat registers b, ?_⟩
  exact run_write_ofNat registers a _

/-- Registers that exist are compared. -/
theorem run_compare_ofNat (a b : Fin registerCount) :
    (compare (UInt8.ofNat a) (UInt8.ofNat b)).run registers =
      .ok () { registers with
        flags := .ofValues (registers.cells.get a) (registers.cells.get b) } := by
  refine run_lookUp_bind_eq_ok_iff.mpr ⟨_, read_ofNat registers a, ?_⟩
  exact run_lookUp_bind_eq_ok_iff.mpr ⟨_, read_ofNat registers b, rfl⟩

end Registers

namespace Statement

variable (results : Results) (sink : Sink)

/-- Loading does to the registers what it means. -/
theorem execute_ldi (a : Fin registerCount) (value : UInt8) :
    Opcode.ldi.execute results.registers sink (UInt8.ofNat a) value =
      ⟨.ok .advance, ((ldi a value).meaning results).registers, sink⟩ :=
  Opcode.changing_eq_ok_iff.mpr ⟨Registers.run_write_ofNat _ a value, rfl, rfl⟩

/-- Multiplying does to the registers what it means. -/
theorem execute_mul (a b : Fin registerCount) :
    Opcode.mul.execute results.registers sink (UInt8.ofNat a) (UInt8.ofNat b) =
      ⟨.ok .advance, ((mul a b).meaning results).registers, sink⟩ := by
  refine Opcode.changing_eq_ok_iff.mpr ⟨?_, rfl, rfl⟩
  rw [Registers.run_compute_ofNat, Arithmetic.apply_mul]
  rfl

/-- Comparing does to the flag what it means. -/
theorem execute_cmp (a b : Fin registerCount) :
    Opcode.cmp.execute results.registers sink (UInt8.ofNat a) (UInt8.ofNat b) =
      ⟨.ok .advance, ((cmp a b).meaning results).registers, sink⟩ := by
  refine Opcode.changing_eq_ok_iff.mpr ⟨?_, rfl, rfl⟩
  rw [Registers.run_compare_ofNat, Flags.ofValues_eq_compare]
  rfl

variable {results sink}

/-- Printing does to an unbounded sink what it means. -/
theorem execute_prn (hunbounded : sink.capacity = none)
    (hcontents : sink.contents.toList = results.text) (a : Fin registerCount) (b : UInt8) :
    ∃ after, Opcode.prn.execute results.registers sink (UInt8.ofNat a) b =
        ⟨.ok .advance, ((prn a).meaning results).registers, after⟩ ∧
      after.capacity = none ∧ after.contents.toList = ((prn a).meaning results).text := by
  let value := results.registers.cells.get a
  have hfits : sink.fits (Sink.line value) = true := by rw [Sink.fits, hunbounded]
  have hread : results.registers.read (UInt8.ofNat a) = .ok value := Registers.read_ofNat _ a
  refine ⟨sink.write (Sink.line value), ?_, hunbounded, ?_⟩
  · exact Opcode.print_eq_ok_iff.mpr ⟨value, hread, hfits, rfl, rfl, rfl⟩
  · rw [Sink.write_of_fits hfits]
    simp [meaning, Results.text, hcontents, Sink.line_eq_toString, value]

end Statement

namespace Machine

variable {start machine : Machine}

/-- Three bytes at the counter, the first of an opcode, are decoded. -/
theorem decode_of_drop {op : Opcode} {a b : UInt8} {rest : List UInt8}
    (h : machine.memory.toList.drop machine.counter = op.byte :: a :: b :: rest) :
    machine.decode = .ok (op, a, b) := by
  have hbyte (offset : Nat) :
      machine.memory[machine.counter + offset]? = (op.byte :: a :: b :: rest)[offset]? := by
    rw [← h, List.getElem?_drop, Vector.getElem?_toList]
  exact decode_eq_ok_iff.mpr (fetch_eq_ok_iff.mpr ⟨hbyte 0, hbyte 1, hbyte 2⟩)

/-- A machine has executed statements since the start, and nothing else. -/
structure Executed (start : Machine) (done : List Statement) (machine : Machine) : Prop where
  config : machine.config = start.config
  memory : machine.memory = start.memory
  running : machine.status = .running
  counter : machine.counter = (Statement.encode done).length
  registers : machine.registers = (Results.ofProgram done).registers
  origins : machine.origins = .empty
  steps : machine.steps = done.length
  unbounded : machine.sink.capacity = none
  contents : machine.sink.contents.toList = (Results.ofProgram done).text

namespace Executed

variable {done : List Statement} {statement : Statement} {rest : List UInt8}

/-- Nothing has been executed on a machine that a program has just been loaded into. -/
theorem loaded {sink : Sink} (hunbounded : sink.capacity = none) (hempty : sink.contents = #[])
    (config : Config) (image : Image) :
    (loaded config sink image).Executed [] (loaded config sink image) where
  config := rfl
  memory := rfl
  running := rfl
  counter := rfl
  registers := rfl
  origins := rfl
  steps := rfl
  unbounded := hunbounded
  contents := congrArg Array.toList hempty

/-- Without origins the guard holds nothing. -/
theorem not_guarded (h : start.Executed done machine) : ¬machine.Guarded := by
  intro hguarded
  obtain ⟨-, hmem⟩ := hguarded
  rw [h.origins] at hmem
  exact Origins.not_mem_empty _ hmem

/-- The count of instructions is below a limit that is larger than the number of statements. -/
theorem belowLimit (h : start.Executed done machine)
    (hlimit : ∀ limit, start.config.stepLimit = some limit → done.length < limit) :
    machine.reachedLimit? = none := by
  rw [reachedLimit?_eq_none_iff, h.config, h.steps]
  exact hlimit

/-- The machine has come to what is spelled behind the statements. -/
theorem dispatches (h : start.Executed done machine) {op : Opcode} {a b : UInt8}
    (hspelled : start.memory.toList = Statement.encode done ++ op.byte :: a :: b :: rest)
    (hlimit : ∀ limit, start.config.stepLimit = some limit → done.length < limit) :
    machine.Dispatches op a b where
  running := h.running
  belowLimit := h.belowLimit hlimit
  decoded := decode_of_drop (by rw [h.memory, h.counter, hspelled, List.drop_left])

/-- The machine executes the next statement if another byte stands behind it, and its registers and
its sink become what the statement makes of them. -/
theorem exists_executes (h : start.Executed done machine)
    (hspelled : start.memory.toList = Statement.encode done ++ (statement.bytes ++ rest))
    (hrest : rest ≠ [])
    (hlimit : ∀ limit, start.config.stepLimit = some limit → done.length < limit) :
    ∃ op a b sink,
      machine.Executes op a b (statement.meaning (.ofProgram done)).registers .advance sink ∧
      op.fields.increment = statement.bytes.length ∧ sink.capacity = none ∧
      sink.contents.toList = (statement.meaning (.ofProgram done)).text := by
  cases statement with
  | ldi a value =>
    have hexecuted := Statement.execute_ldi (.ofProgram done) machine.sink a value
    have hlength : Opcode.ldi.fields.increment = 3 := rfl
    rw [← h.registers] at hexecuted
    exact ⟨.ldi, _, _, machine.sink, ⟨h.dispatches hspelled hlimit, hexecuted⟩, hlength,
      h.unbounded, h.contents⟩
  | prn a =>
    -- The byte behind the statement is fetched with it, whatever it is.
    obtain ⟨b, rest, rfl⟩ := List.exists_cons_of_ne_nil hrest
    obtain ⟨sink, hexecuted, hunbounded, hcontents⟩ :=
      Statement.execute_prn h.unbounded h.contents a b
    rw [← h.registers] at hexecuted
    exact ⟨.prn, _, _, sink, ⟨h.dispatches hspelled hlimit, hexecuted⟩, rfl, hunbounded, hcontents⟩
  | mul a b =>
    have hexecuted := Statement.execute_mul (.ofProgram done) machine.sink a b
    have hlength : Opcode.mul.fields.increment = 3 := rfl
    rw [← h.registers] at hexecuted
    exact ⟨.mul, _, _, machine.sink, ⟨h.dispatches hspelled hlimit, hexecuted⟩, hlength,
      h.unbounded, h.contents⟩
  | cmp a b =>
    have hexecuted := Statement.execute_cmp (.ofProgram done) machine.sink a b
    have hlength : Opcode.cmp.fields.increment = 3 := rfl
    rw [← h.registers] at hexecuted
    exact ⟨.cmp, _, _, machine.sink, ⟨h.dispatches hspelled hlimit, hexecuted⟩, hlength,
      h.unbounded, h.contents⟩

/-- A step executes the next statement. -/
theorem step (h : start.Executed done machine)
    (hspelled : start.memory.toList = Statement.encode done ++ (statement.bytes ++ rest))
    (hrest : rest ≠ [])
    (hlimit : ∀ limit, start.config.stepLimit = some limit → done.length < limit) :
    machine.step.answer = .ok .running ∧
      start.Executed (done ++ [statement]) machine.step.machine := by
  obtain ⟨op, a, b, sink, hexecutes, hlength, hunbounded, hcontents⟩ :=
    h.exists_executes hspelled hrest hlimit
  obtain ⟨hanswer, hmachine⟩ := hexecutes.step_of_proceed (by decide) h.not_guarded
  refine ⟨hanswer, ?_⟩
  rw [hmachine]
  exact
    { config := h.config
      memory := h.memory
      running := h.running
      counter := by
        rw [Statement.encode_concat, List.length_append, ← hlength, ← h.counter]
        rfl
      registers := by
        rw [Results.ofProgram_concat]
        rfl
      origins := h.origins
      steps := by
        rw [List.length_append, List.length_singleton, ← h.steps]
        rfl
      unbounded := hunbounded
      contents := by
        rw [Results.ofProgram_concat]
        exact hcontents }

/-- All statements of a program are executed, one with each step. -/
theorem stepped (h : start.Executed [] start) {program : List Statement}
    (hspelled : start.memory.toList = Statement.encode program ++ rest) (hrest : rest ≠ [])
    (hlimit : ∀ limit, start.config.stepLimit = some limit → program.length ≤ limit) :
    start.GoesOn program.length ∧ start.Executed program (start.stepped program.length) := by
  -- What has been executed is spelled by a prefix of the code, so the program grows at its end.
  induction program using List.reverseRecOn generalizing rest with
  | nil => exact ⟨fun earlier hlt => absurd hlt (Nat.not_lt_zero earlier), h⟩
  | append_singleton done statement ih =>
    rw [Statement.encode_concat, List.append_assoc] at hspelled
    rw [List.length_append, List.length_singleton] at hlimit ⊢
    obtain ⟨hgoes, hdone⟩ := ih hspelled (List.append_ne_nil_of_right_ne_nil _ hrest)
      fun limit hset => Nat.le_of_lt (hlimit limit hset)
    obtain ⟨hanswer, hnext⟩ := hdone.step hspelled hrest hlimit
    refine ⟨fun earlier hlt => ?_, stepped_succ start _ ▸ hnext⟩
    rcases Nat.lt_succ_iff_lt_or_eq.mp hlt with hearlier | rfl
    · exact hgoes earlier hearlier
    · exact hanswer

/-- The stop instruction halts the machine behind the statements. -/
theorem step_of_halt (h : start.Executed done machine) {a b : UInt8}
    (hspelled : start.memory.toList = Statement.encode done ++ 0x01 :: a :: b :: rest)
    (hlimit : ∀ limit, start.config.stepLimit = some limit → done.length < limit) :
    machine.step.answer = .ok .halted ∧
      machine.step.machine = (machine.withResults machine.registers machine.sink).halt := by
  have hexecutes : machine.Executes .hlt a b machine.registers .halt machine.sink :=
    ⟨h.dispatches hspelled hlimit, rfl⟩
  exact hexecutes.step_of_halt rfl

/-- At one of the last two addresses nothing can be fetched any more. -/
theorem step_of_missed (h : start.Executed done machine)
    (hbehind : memorySize ≤ (Statement.encode done).length + 2)
    (hwithin : (Statement.encode done).length ≤ memorySize)
    (hlimit : ∀ limit, start.config.stepLimit = some limit → done.length < limit) :
    machine.step.answer = .error (.outOfRange .memory memorySize) ∧
      machine.step.machine = machine := by
  rw [← h.counter] at hbehind hwithin
  have hundecoded : machine.decode = .error (.outOfRange .memory memorySize) := by
    rw [decode_of_missed hbehind, Nat.max_eq_right hwithin]
  rw [step_of_undecoded h.running (h.belowLimit hlimit) hundecoded]
  exact ⟨rfl, rfl⟩

end Executed

/-- A program without jumps computes its meaning and halts at its stop instruction. If this stands
too near to the end of the memory, all statements take effect before its operands are missed. -/
theorem straight_line_computes_meaning (program : List Statement) (machine : Machine)
    (hunbounded : machine.sink.capacity = none) (hempty : machine.sink.contents = #[])
    (hlimit : ∀ limit, machine.config.stepLimit = some limit → program.length < limit)
    (hlength : (Statement.encode program).length ≤ 255) :
    ∃ image turn, Image.ofBytes (Statement.encode program ++ [0x01]) = .ok image ∧
      (machine.load image).machine.run = some turn ∧
      turn.machine.counter = (Statement.encode program).length ∧
      turn.machine.registers = (Results.ofProgram program).registers ∧
      turn.machine.sink.contents.toList = (Results.ofProgram program).text ∧
      turn.machine.origins = .empty ∧
      ((Statement.encode program).length ≤ 253 →
        turn.answer = .ok () ∧ turn.machine.status = .halted ∧
          turn.machine.steps = program.length + 1) ∧
      (254 ≤ (Statement.encode program).length →
        turn.answer = .error (.outOfRange .memory 256) ∧ turn.machine.status = .running ∧
          turn.machine.steps = program.length) := by
  have hfits : (Statement.encode program ++ [0x01]).length ≤ memorySize := by
    rw [List.length_append, List.length_singleton]
    exact Nat.succ_le_succ hlength
  let image : Image := ⟨Statement.encode program ++ [0x01], hfits⟩
  let start := loaded machine.config machine.sink image
  have hspelled : start.memory.toList = Statement.encode program ++
      0x01 :: List.replicate (255 - (Statement.encode program).length) 0 :=
    Statement.memory_of_encode rfl
  obtain ⟨hgoes, hdone⟩ := (Executed.loaded hunbounded hempty machine.config image).stepped hspelled
    (List.cons_ne_nil _ _) fun limit hset => (hlimit limit hset).le
  have himage : Image.ofBytes (Statement.encode program ++ [0x01]) = .ok image :=
    Image.ofBytes_program image
  have hlast : (start.ending program.length).machine =
      (start.stepped program.length).step.machine := stepped_succ start program.length
  have hrun (hstops : (start.stepped program.length).step.answer ≠ .ok .running) :
      start.run = some (start.ending program.length) :=
    run_eq_some_iff.mpr ⟨program.length, ⟨hgoes, hstops⟩, rfl⟩
  by_cases hroom : (Statement.encode program).length ≤ 253
  · have hzeros : 255 - (Statement.encode program).length =
        253 - (Statement.encode program).length + 2 := by omega
    rw [hzeros] at hspelled
    obtain ⟨hanswer, hmachine⟩ := hdone.step_of_halt hspelled hlimit
    rw [← hlast] at hmachine
    refine ⟨image, _, himage, hrun (by rw [hanswer]; decide), ?_⟩
    rw [hmachine]
    refine ⟨hdone.counter, hdone.registers, hdone.contents, hdone.origins, fun _ => ?_,
      fun hlate => absurd hroom (by omega)⟩
    exact ⟨congrArg (Except.map fun _ => ()) hanswer, rfl, congrArg (· + 1) hdone.steps⟩
  · obtain ⟨hanswer, hmachine⟩ := hdone.step_of_missed
      (Nat.add_le_add_right (Nat.not_le.mp hroom) 2) (hlength.trans (by decide)) hlimit
    rw [← hlast] at hmachine
    refine ⟨image, _, himage, hrun (by rw [hanswer]; nofun), ?_⟩
    rw [hmachine]
    refine ⟨hdone.counter, hdone.registers, hdone.contents, hdone.origins,
      fun hearly => absurd hearly hroom, fun _ => ?_⟩
    exact ⟨congrArg (Except.map fun _ => ()) hanswer, hdone.running, hdone.steps⟩

/-- A program of four statements squares 20 and prints what is left of it; its fifth step, the last
one that the limit allows, stops it. One of eighty-five statements reaches to address 254: it
prints, too, but cannot stop. -/
theorem straight_line_computes_meaning_square :
    let square : List Statement := [.ldi 0 20, .mul 0 0, .prn 0, .cmp 0 8]
    let long : List Statement := List.replicate 84 (.ldi 0 7) ++ [.prn 0]
    (∃ image turn, Image.ofBytes (Statement.encode square ++ [0x01]) = .ok image ∧
      ((new { stepLimit := some 5 } {}).load image).machine.run = some turn ∧
      turn.answer = .ok () ∧ turn.machine.counter = 11 ∧ turn.machine.steps = 5 ∧
      turn.machine.registers.flags = .greater ∧
      turn.machine.sink.contents.toList = ['1', '4', '4', '\n']) ∧
    ∃ image turn, Image.ofBytes (Statement.encode long ++ [0x01]) = .ok image ∧
      ((new { revisitGuard := false } {}).load image).machine.run = some turn ∧
      turn.answer = .error (.outOfRange .memory 256) ∧ turn.machine.counter = 254 ∧
      turn.machine.steps = 85 ∧ turn.machine.sink.contents.toList = ['7', '\n'] := by
  intro square long
  have hsquare : (Statement.encode square).length = 11 := by decide
  have hlong : (Statement.encode long).length = 254 := by decide +kernel
  obtain ⟨image, turn, himage, hrun, hcounter, hregisters, hprinted, -, hhalts, -⟩ :=
    straight_line_computes_meaning square (new { stepLimit := some 5 } {}) rfl rfl
      (fun limit hset => by cases hset; decide) (by rw [hsquare]; decide)
  obtain ⟨image', turn', himage', hrun', hcounter', -, hprinted', -, -, hfails⟩ :=
    straight_line_computes_meaning long (new { revisitGuard := false } {}) rfl rfl
      (fun limit hset => by cases hset) (by rw [hlong]; decide)
  obtain ⟨hanswer, -, hsteps⟩ := hhalts (by rw [hsquare]; decide)
  obtain ⟨hanswer', -, hsteps'⟩ := hfails (by rw [hlong])
  refine ⟨⟨image, turn, himage, hrun, hanswer, hcounter.trans hsquare, hsteps, ?_, ?_⟩,
    image', turn', himage', hrun', hanswer', hcounter'.trans hlong, hsteps', ?_⟩
  · rw [hregisters]
    decide
  · rw [hprinted]
    decide +kernel
  · rw [hprinted']
    decide +kernel

end Machine

end ByteMachine
