import ByteMachine.Proofs.Execution.Effects
import ByteMachine.Proofs.Output.BoundedSink
import Mathlib.Tactic.Ring

/-!
# Reading the output back

What a program prints can be read back. Cut at its line feeds, the output falls into the shortest
numerals of the values that were printed, in their order and none of them missing, and numerals are
read as they are written. So the output tells these values and they tell the output: two runs that
print the same have printed the same values.
-/

namespace ByteMachine

namespace Text

/-- Decimal digits, at least one, that stand for a number. -/
structure IsNumeral (text : List Char) (number : Nat) : Prop where
  nonempty : text ≠ []
  digits : ∀ c ∈ text, c.isDigit = true
  value : Nat.ofDigitChars 10 text 0 = number

/-- The shortest decimal digits that stand for a number. -/
structure IsShortestNumeral (text : List Char) (number : Nat) : Prop
    extends IsNumeral text number where
  shortest : ∀ other, IsNumeral other number → text.length ≤ other.length

/-- The numbers that the lines of a text stand for, each closed by a line feed. -/
def readNumbers (text : List Char) : List Nat :=
  (text.splitOn '\n').dropLast.map fun line => Nat.ofDigitChars 10 line 0

variable {text : List Char} {number : Nat}

/-- Every digit that is read multiplies what the number stays below by ten. -/
theorem ofDigitChars_lt (h : ∀ c ∈ text, c.isDigit = true) (before : Nat) :
    Nat.ofDigitChars 10 text before < (before + 1) * 10 ^ text.length := by
  induction text generalizing before with
  | nil => simp
  | cons c text ih =>
    have hdigit : c.toNat - '0'.toNat ≤ 9 := by
      have hrange := Char.isDigit_iff_toNat.mp (h c List.mem_cons_self)
      have hnine : '9'.toNat = '0'.toNat + 9 := rfl
      omega
    have hrest := ih (fun d hd => h d (List.mem_cons_of_mem c hd))
      (10 * before + (c.toNat - '0'.toNat))
    calc Nat.ofDigitChars 10 (c :: text) before
        = Nat.ofDigitChars 10 text (10 * before + (c.toNat - '0'.toNat)) := Nat.ofDigitChars_cons
      _ < (10 * before + (c.toNat - '0'.toNat) + 1) * 10 ^ text.length := hrest
      _ ≤ (10 * (before + 1)) * 10 ^ text.length := Nat.mul_le_mul_right _ (by omega)
      _ = (before + 1) * 10 ^ (c :: text).length := by rw [List.length_cons]; ring

/-- The usual digits of a number are the shortest ones. -/
theorem isShortestNumeral_toDigits (number : Nat) :
    IsShortestNumeral (Nat.toDigits 10 number) number where
  nonempty := Nat.toDigits_ne_nil
  digits _ hc := Nat.isDigit_of_mem_toDigits (by decide) (by decide) hc
  value := Nat.ofDigitChars_ten_toDigits
  shortest other hother := by
    have hpos : 0 < other.length := List.length_pos_iff.mpr hother.nonempty
    have hlt := ofDigitChars_lt hother.digits 0
    rw [hother.value, Nat.zero_add, Nat.one_mul] at hlt
    exact (Nat.length_toDigits_le_iff (by decide) hpos).mpr hlt

namespace IsShortestNumeral

/-- The shortest digits have no zero in front of others. -/
theorem no_leading_zero (h : IsShortestNumeral text number) (hzero : text.head? = some '0') :
    text = ['0'] := by
  obtain ⟨rest, rfl⟩ := List.head?_eq_some_iff.mp hzero
  by_contra hlong
  have hne : rest ≠ [] := fun hnil => hlong (by rw [hnil])
  have hvalue : Nat.ofDigitChars 10 rest 0 = number := by
    rw [← h.value, Nat.ofDigitChars_cons]
    rfl
  have hle := h.shortest rest ⟨hne, fun c hc => h.digits c (List.mem_cons_of_mem _ hc), hvalue⟩
  rw [List.length_cons] at hle
  omega

/-- A number below a thousand has at most three digits. -/
theorem length_le_three (h : IsShortestNumeral text number) (hlt : number < 1000) :
    text.length ≤ 3 :=
  (h.shortest _ (isShortestNumeral_toDigits number).toIsNumeral).trans
    ((Nat.length_toDigits_le_iff (by decide) (by decide)).mpr hlt)

end IsShortestNumeral

end Text

/-- A printed line is the numeral of its value, closed by a line feed. -/
theorem Sink.line_eq_toDigits (value : UInt8) :
    line value = Nat.toDigits 10 value.toNat ++ ['\n'] := by
  rw [line, Text.decimal_toList]

/-- Cut at their line feeds, printed lines fall into the numerals of their values. -/
theorem Sink.splitOn_lines (values : List UInt8) :
    (values.flatMap line).splitOn '\n' =
      values.map (fun value => Nat.toDigits 10 value.toNat) ++ [[]] := by
  induction values with
  | nil => rfl
  | cons value values ih =>
    have hfeed : '\n' ∉ Nat.toDigits 10 value.toNat := fun hmem =>
      absurd (Nat.isDigit_of_mem_toDigits (by decide) (by decide) hmem) (by decide)
    rw [List.flatMap_cons, line_eq_toDigits, List.append_assoc, List.singleton_append,
      List.splitOn_append_cons_self, List.splitOn_eq_singleton hfeed, ih]
    rfl

/-- The values of printed lines are read back. -/
theorem Sink.readNumbers_lines (values : List UInt8) :
    Text.readNumbers (values.flatMap line) = values.map UInt8.toNat := by
  rw [Text.readNumbers, splitOn_lines, List.dropLast_concat, List.map_map]
  exact List.map_congr_left fun value _ => Nat.ofDigitChars_ten_toDigits

/-- Printed lines are known by their values, and these by them. -/
theorem Sink.flatMap_line_inj {first second : List UInt8} :
    first.flatMap line = second.flatMap line ↔ first = second := by
  refine ⟨fun h => ?_, congrArg _⟩
  have hread := congrArg Text.readNumbers h
  rw [readNumbers_lines, readNumbers_lines] at hread
  exact List.map_injective_iff.mpr (fun _ _ => UInt8.toNat_inj.mp) hread

namespace Machine

/-- The value that the next step prints: the machine is running, the step succeeds, and its
instruction prints the register that holds the value. -/
def printed? (machine : Machine) : Option UInt8 :=
  match machine.status, machine.step.answer, machine.instruction? with
  | .running, .ok _, some (.prn a) => machine.register? a
  | _, _, _ => none

/-- The values that a number of steps print, in their order. -/
def printed (machine : Machine) (calls : Nat) : List UInt8 :=
  (List.range calls).filterMap fun earlier => (machine.stepped earlier).printed?

variable {machine : Machine} {value : UInt8}

/-- One more step prints its value behind the others. -/
theorem printed_succ (machine : Machine) (calls : Nat) :
    machine.printed (calls + 1) =
      machine.printed calls ++ (machine.stepped calls).printed?.toList := by
  unfold printed
  rw [List.range_succ, List.filterMap_append]
  cases hprinted : (machine.stepped calls).printed? <;> simp [hprinted]

/-- A step prints a value exactly when the machine is about to print it and the step succeeds. -/
theorem printed?_eq_some_iff :
    machine.printed? = some value ↔
      machine.Prints value ∧ ∃ status, machine.step.answer = .ok status := by
  constructor
  · intro h
    unfold printed? at h
    split at h
    · -- A running machine whose step succeeds has executed the instruction at its counter.
      rename_i status a hrunning hanswer hinstruction
      obtain ⟨op, first, second, registers, request, sink, hexecutes⟩ :=
        exists_executes hrunning hanswer
      rw [hexecutes.toDispatches.instruction?_eq, Option.some.injEq] at hinstruction
      obtain ⟨rfl, rfl⟩ : op = .prn ∧ first = a := by
        cases op <;> simp [Opcode.instruction] at hinstruction ⊢
        exact hinstruction
      exact ⟨⟨first, second, hexecutes.toDispatches, Registers.read_eq_ok_iff.mpr h⟩, status,
        hanswer⟩
    · cases h
  · rintro ⟨⟨a, b, hdispatches, hread⟩, status, hanswer⟩
    have hinstruction : machine.instruction? = some (.prn a) := hdispatches.instruction?_eq
    simp only [printed?, hdispatches.running, hanswer, hinstruction]
    exact Registers.read_eq_ok_iff.mp hread

/-- A step with an unbounded sink prints the line of its value and nothing else. -/
theorem contents_step_of_unbounded (hunbounded : machine.sink.capacity = none) :
    machine.step.machine.sink.contents.toList =
      machine.sink.contents.toList ++ machine.printed?.toList.flatMap Sink.line := by
  rcases machine.silent_or_prints with hsilent | ⟨value, hprints⟩
  · have hnone : machine.printed? = none := by
      rw [Option.eq_none_iff_forall_ne_some]
      intro value hvalue
      exact hsilent value (printed?_eq_some_iff.mp hvalue).1
    rw [hsilent.step_sink, hnone]
    simp
  · have hfits : machine.sink.fits (Sink.line value) = true := by simp [Sink.fits, hunbounded]
    obtain ⟨turn, status, hanswer, hsame⟩ := hprints.step_of_fits
    have hstep : machine.step = _ := hsame machine.sink hfits
    have hsome : machine.printed? = some value :=
      printed?_eq_some_iff.mpr ⟨hprints, status, by rw [hstep]; exact hanswer⟩
    rw [(hprints.contents_step hunbounded).1, hsome]
    simp

/-- Steps with an unbounded sink print the lines of their values one behind the other. -/
theorem contents_stepped_of_unbounded (hunbounded : machine.sink.capacity = none) (calls : Nat) :
    (machine.stepped calls).sink.contents.toList =
      machine.sink.contents.toList ++ (machine.printed calls).flatMap Sink.line := by
  induction calls with
  | zero => simp [printed]
  | succ calls ih =>
    rw [stepped_succ, contents_step_of_unbounded (machine.stepped_unbounded hunbounded calls), ih,
      printed_succ, List.flatMap_append, List.append_assoc]

/-- Behind a load the output is nothing but the lines of the printed values. -/
theorem contents_stepped_loaded (config : Config) (refusal : Refusal) (image : Image)
    (calls : Nat) :
    ((loaded config { refusal } image).stepped calls).sink.contents.toList =
      ((loaded config { refusal } image).printed calls).flatMap Sink.line :=
  contents_stepped_of_unbounded rfl calls

/-- The output of a loaded program is a row of lines that are the shortest numerals of the values
printed, in order, so two runs have the same output exactly when they have printed the same
values. -/
theorem output_is_uniquely_decodable (config : Config) (refusal : Refusal) (image : Image)
    (calls : Nat) :
    let machine := loaded config { refusal } image
    let output := (machine.stepped calls).sink.contents.toList
    let values := machine.printed calls
    Text.readNumbers output = values.map UInt8.toNat ∧
    (∃ lines, output = lines.flatMap (fun line => line ++ ['\n']) ∧
      output.splitOn '\n' = lines ++ [[]] ∧ lines.length = values.length ∧
      List.Forall₂ (fun line value => Text.IsShortestNumeral line (UInt8.toNat value) ∧
        (line.head? = some '0' → line = ['0']) ∧ 1 ≤ line.length ∧ line.length ≤ 3) lines values) ∧
    ∀ (config' : Config) (refusal' : Refusal) (image' : Image) (calls' : Nat),
      let machine' := loaded config' { refusal := refusal' } image'
      (machine'.stepped calls').sink.contents.toList = output ↔
        machine'.printed calls' = values := by
  intro machine output values
  have houtput : output = values.flatMap Sink.line :=
    contents_stepped_loaded config refusal image calls
  refine ⟨?_, ⟨values.map fun value => Nat.toDigits 10 value.toNat, ?_, ?_, ?_, ?_⟩, ?_⟩
  · rw [houtput, Sink.readNumbers_lines]
  · rw [houtput, List.flatMap_map]
    exact List.flatMap_congr fun value _ => Sink.line_eq_toDigits value
  · rw [houtput, Sink.splitOn_lines]
  · rw [List.length_map]
  · rw [List.forall₂_map_left_iff, List.forall₂_same]
    intro value _
    have hshortest := Text.isShortestNumeral_toDigits value.toNat
    exact ⟨hshortest, hshortest.no_leading_zero, Nat.length_toDigits_pos,
      hshortest.length_le_three (Nat.lt_trans value.toNat_lt (by decide))⟩
  · intro config' refusal' image' calls' machine'
    rw [contents_stepped_loaded config' refusal' image' calls', houtput]
    exact Sink.flatMap_line_inj

/-- With the revisit guard the doubling program prints one and two before the guard refuses its
jump. A limit of ten steps leaves the same output behind, and with neither there is one more
line. -/
theorem output_is_uniquely_decodable_doubling :
    let output (config : Config) := ((loaded config {} doubling).stepped 40).sink.contents.toList
    Text.readNumbers (output {}) = [1, 2] ∧
      output { revisitGuard := false, stepLimit := some 10 } = output {} ∧
      output { revisitGuard := false } ≠ output {} := by
  intro output
  obtain ⟨hread, -, hsame⟩ := output_is_uniquely_decodable {} .full doubling 40
  have hprinted : (loaded {} {} doubling).printed 40 = [1, 2] := by decide +kernel
  refine ⟨hread.trans (by rw [hprinted]; rfl), (hsame _ .full doubling 40).mpr ?_,
    fun heq => ?_⟩
  · rw [hprinted]
    decide +kernel
  · have hother := (hsame _ .full doubling 40).mp heq
    rw [hprinted] at hother
    exact absurd hother (by decide +kernel)

end Machine

end ByteMachine
