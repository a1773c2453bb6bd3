import ByteMachine.Proofs.Execution.StraightLine
import ByteMachine.Proofs.Session.FaultOrder
import Mathlib.Data.List.Forall2

/-!
# Trace lines tell what they show

A trace line is a row of words with a blank between any two of them: a heading, the counter, the
three bytes there and the eight general-purpose registers, the last two groups behind bars.
`Snapshot` is what it shows and `WrittenAs` the form in which it does so, with every number in
upper-case hexadecimal.

A line of this form can be read back, because neither a blank nor a bar is a hexadecimal digit, and
its length depends on the width of the counter alone. That width is two for the addresses of the
memory and three for the one behind them, and no session moves a counter further than that.
-/

namespace ByteMachine

namespace Text

/-- The digits of upper-case hexadecimal, each at the place of its value. -/
def hexDigits : List Char :=
  "0123456789ABCDEF".toList

/-- The number that upper-case hexadecimal digits stand for. -/
def hexValue (text : List Char) : Nat :=
  text.foldl (fun number digit => 16 * number + hexDigits.idxOf digit) 0

/-- Upper-case hexadecimal digits that stand for a number, as many as the width says. -/
structure IsUpperHex (width : Nat) (text : List Char) (number : Nat) : Prop where
  length_eq : text.length = width
  digits : ∀ c ∈ text, c ∈ hexDigits
  value : hexValue text = number

namespace IsUpperHex

variable {width number : Nat} {text : List Char}

/-- A character that is no digit does not occur. -/
theorem not_mem (h : IsUpperHex width text number) {c : Char} (hc : c ∉ hexDigits) : c ∉ text :=
  fun hmem => hc (h.digits c hmem)

/-- One more digit behind the others. -/
theorem concat (h : IsUpperHex width text number) {digit : Nat} (hdigit : digit < 16) :
    IsUpperHex (width + 1) (text ++ [digit.digitChar.toUpper]) (16 * number + digit) := by
  have hplace : digit.digitChar.toUpper ∈ hexDigits ∧
      hexDigits.idxOf digit.digitChar.toUpper = digit := by
    revert digit
    decide
  refine ⟨by rw [List.length_append, h.length_eq]; rfl, fun c hc => ?_, ?_⟩
  · rcases List.mem_append.mp hc with hfront | hlast
    · exact h.digits c hfront
    · rw [List.mem_singleton.mp hlast]
      exact hplace.1
  · have hvalue := h.value
    unfold hexValue at hvalue ⊢
    rw [List.foldl_append, hvalue, List.foldl_cons, List.foldl_nil, hplace.2]

/-- Zeros in front widen the text and leave the number alone. -/
theorem padded (h : IsUpperHex width text number) (zeros : Nat) :
    IsUpperHex (zeros + width) (List.replicate zeros '0' ++ text) number := by
  induction zeros with
  | zero => simpa using h
  | succ zeros ih =>
    -- The value is read from the left, and a zero there leaves it at zero.
    refine ⟨?_, fun c hc => ?_, ih.value⟩
    · rw [List.length_append, List.length_replicate, h.length_eq]
    · rw [List.replicate_succ, List.cons_append] at hc
      rcases List.mem_cons.mp hc with rfl | hrest
      · decide
      · exact ih.digits c hrest

end IsUpperHex

/-- The usual digits of a number in base sixteen, put into upper case. -/
theorem isUpperHex_toDigits (number : Nat) :
    IsUpperHex (Nat.toDigits 16 number).length ((Nat.toDigits 16 number).map Char.toUpper)
      number := by
  induction number using Nat.strongRecOn with
  | ind number ih =>
    by_cases hlt : number < 16
    · have hempty : IsUpperHex 0 [] 0 := ⟨rfl, by simp, rfl⟩
      rw [Nat.toDigits_of_lt_base hlt]
      simpa using hempty.concat hlt
    · have hquotient := ih (number / 16) (by omega)
      have hconcat := hquotient.concat (Nat.mod_lt number (by decide))
      rw [Nat.div_add_mod] at hconcat
      rw [Nat.toDigits_eq_if (by decide), if_neg hlt, List.map_append, List.length_append]
      exact hconcat

/-- A number is shown with at least two hexadecimal digits, and with more if it needs them. -/
theorem isUpperHex_upperHex (number : Nat) :
    IsUpperHex (max 2 (Nat.toDigits 16 number).length) (upperHex number).toList number := by
  have hpadded := (isUpperHex_toDigits number).padded (2 - (Nat.toDigits 16 number).length)
  rw [upperHex, String.toList_ofList, digits, List.leftpad, List.map_append, List.map_replicate,
    ← Nat.sub_add_eq_max]
  exact hpadded

/-- A byte is shown with two hexadecimal digits. -/
theorem isUpperHex_byte (byte : UInt8) :
    IsUpperHex 2 (upperHex byte.toNat).toList byte.toNat := by
  have hlength : (Nat.toDigits 16 byte.toNat).length ≤ 2 :=
    (Nat.length_toDigits_le_iff (by decide) (by decide)).mpr byte.toNat_lt
  have hshown := isUpperHex_upperHex byte.toNat
  rwa [max_eq_left hlength] at hshown

/-- A row of words with a blank between any two is its first word, and a blank in front of each of
the others. -/
theorem intercalate_blank (word : List Char) (words : List (List Char)) :
    [' '].intercalate (word :: words) = word ++ words.flatMap (' ' :: ·) := by
  induction words generalizing word with
  | nil => simp
  | cons next words ih =>
    rw [List.intercalate_cons_cons, ih, List.flatMap_cons, List.append_assoc]
    rfl

end Text

/-- What a trace line shows: the counter, the bytes from there on, and the registers, R0 first. -/
structure Snapshot where
  counter : Nat
  window : List UInt8
  registers : List UInt8
  deriving DecidableEq, Repr

namespace Snapshot

/-- Words that show bytes, two hexadecimal digits for each. -/
def HexWords (words : List (List Char)) (bytes : List UInt8) : Prop :=
  List.Forall₂ (fun word byte => Text.IsUpperHex 2 word (UInt8.toNat byte)) words bytes

/-- The form of a trace line whose counter takes some number of digits. -/
def WrittenAs (snapshot : Snapshot) (width : Nat) (line : String) : Prop :=
  ∃ counter window registers,
    line.toList = [' '].intercalate
      (["TRACE:".toList, counter] ++ ['|'] :: window ++ ['|'] :: registers) ∧
    Text.IsUpperHex width counter snapshot.counter ∧
    HexWords window snapshot.window ∧ HexWords registers snapshot.registers

/-- The byte that hexadecimal digits stand for. -/
def byteOfHex (word : List Char) : UInt8 :=
  UInt8.ofNat (Text.hexValue word)

/-- Read a trace line. It is cut into words at the blanks, and the words into groups at the bars. -/
def ofLine? (line : String) : Option Snapshot :=
  match (line.toList.splitOn ' ').splitOn ['|'] with
  | [[_, counter], window, registers] =>
    some ⟨Text.hexValue counter, window.map byteOfHex, registers.map byteOfHex⟩
  | _ => none

namespace HexWords

variable {words : List (List Char)} {bytes : List UInt8}

/-- No word holds a character that is no digit. -/
theorem not_mem (h : HexWords words bytes) {c : Char} (hc : c ∉ Text.hexDigits) :
    ∀ word ∈ words, c ∉ word := by
  induction h with
  | nil => simp
  | cons hword _ ih => exact List.forall_mem_cons.mpr ⟨hword.not_mem hc, ih⟩

/-- The bytes are read back. -/
theorem map_byteOfHex (h : HexWords words bytes) : words.map byteOfHex = bytes := by
  induction h with
  | nil => rfl
  | cons hword _ ih => rw [List.map_cons, ih, byteOfHex, hword.value, UInt8.ofNat_toNat]

/-- Every byte takes two digits and the blank in front of them. -/
theorem length_spaced (h : HexWords words bytes) :
    (words.flatMap (' ' :: ·)).length = 3 * bytes.length := by
  induction h with
  | nil => rfl
  | cons hword _ ih =>
    rw [List.flatMap_cons, List.length_append, ih, List.length_cons, hword.length_eq,
      List.length_cons]
    omega

end HexWords

namespace WrittenAs

variable {snapshot : Snapshot} {width : Nat} {line : String}

/-- A line of this form is read back as what it shows. -/
theorem ofLine?_eq (h : snapshot.WrittenAs width line) : ofLine? line = some snapshot := by
  obtain ⟨counter, window, registers, hline, hcounter, hwindow, hregisters⟩ := h
  -- Blanks stand only between words, and of the words only those that are bars hold one.
  have hblank : ' ' ∉ Text.hexDigits := by decide
  have hbar : '|' ∉ Text.hexDigits := by decide
  have hwords : line.toList.splitOn ' ' =
      ["TRACE:".toList, counter] ++ ['|'] :: window ++ ['|'] :: registers := by
    rw [hline]
    refine List.splitOn_intercalate ' ' (fun word hmem => ?_) (by simp)
    simp only [List.mem_append, List.mem_cons, List.not_mem_nil, or_false] at hmem
    rcases hmem with ((rfl | rfl) | rfl | hmem) | rfl | hmem
    · decide
    · exact hcounter.not_mem hblank
    · decide
    · exact hwindow.not_mem hblank word hmem
    · decide
    · exact hregisters.not_mem hblank word hmem
  have hfront : ['|'] ∉ ["TRACE:".toList, counter] := fun hmem => by
    rcases List.mem_pair.mp hmem with hheading | rfl
    · exact absurd hheading (by decide)
    · exact hcounter.not_mem hbar List.mem_cons_self
  have hgroup {words : List (List Char)} {bytes : List UInt8} (hshown : HexWords words bytes) :
      ['|'] ∉ words := fun hmem => hshown.not_mem hbar _ hmem List.mem_cons_self
  have hgroups : (line.toList.splitOn ' ').splitOn ['|'] =
      [["TRACE:".toList, counter], window, registers] := by
    rw [hwords, List.splitOn_append_cons_self, List.splitOn_append_cons_self,
      List.splitOn_eq_singleton hfront, List.splitOn_eq_singleton (hgroup hwindow),
      List.splitOn_eq_singleton (hgroup hregisters)]
    rfl
  rw [ofLine?, hgroups]
  simp only [hcounter.value, hwindow.map_byteOfHex, hregisters.map_byteOfHex]

/-- How long a line of this form is. -/
theorem length_eq (h : snapshot.WrittenAs width line) :
    line.length = width + 3 * snapshot.window.length + 3 * snapshot.registers.length + 11 := by
  obtain ⟨counter, window, registers, hline, hcounter, hwindow, hregisters⟩ := h
  have hheading : "TRACE:".toList.length = 6 := rfl
  rw [← String.length_toList, hline, List.cons_append, List.cons_append, Text.intercalate_blank]
  simp only [List.cons_append, List.nil_append, List.flatMap_cons, List.flatMap_append,
    List.length_append, List.length_cons, hheading, hcounter.length_eq, hwindow.length_spaced,
    hregisters.length_spaced]
  omega

end WrittenAs

end Snapshot

/-- The general-purpose registers are R0 to R7. -/
theorem Registers.generalPurpose_eq_ofFn (registers : Registers) :
    registers.generalPurpose = List.ofFn fun number : Fin 8 => registers.cells[number.val] := by
  refine List.ext_getElem ?_ fun number _ _ => ?_
  · rw [generalPurpose_length, List.length_ofFn]
  · simp only [generalPurpose, List.getElem_take, Vector.getElem_toList, List.getElem_ofFn]

namespace Machine

variable {machine first second : Machine}

/-- What the trace line of a machine has to show: its counter, the three bytes from there on, with
zeros beyond the end of the memory, and R0 to R7. -/
def snapshot (machine : Machine) : Snapshot where
  counter := machine.counter
  window := List.ofFn fun offset : Fin 3 => machine.memory.peek (machine.counter + offset)
  registers := List.ofFn fun number : Fin 8 => machine.registers.cells[number.val]

/-- Bytes in hexadecimal, each behind a blank, are words that show them. -/
theorem exists_hexWords (bytes : List UInt8) :
    ∃ words, spacedHex bytes = words.flatMap (' ' :: ·) ∧ Snapshot.HexWords words bytes := by
  refine ⟨bytes.map fun byte => (Text.upperHex byte.toNat).toList, ?_, ?_⟩
  · rw [spacedHex, List.flatMap_map]
  · rw [Snapshot.HexWords, List.forall₂_map_left_iff, List.forall₂_same]
    exact fun byte _ => Text.isUpperHex_byte byte

/-- The trace line is made of what it has to show. -/
theorem traceLine_eq_of_snapshot (machine : Machine) :
    machine.traceLine = "TRACE: " ++ Text.upperHex machine.snapshot.counter ++
      " |" ++ String.ofList (spacedHex machine.snapshot.window) ++
      " |" ++ String.ofList (spacedHex machine.snapshot.registers) := by
  rw [traceLine, Registers.generalPurpose_eq_ofFn]
  rfl

/-- The trace line of any machine is one, with as many digits for the counter as it needs. -/
theorem writtenAs_traceLine (machine : Machine) :
    machine.snapshot.WrittenAs (max 2 (Nat.toDigits 16 machine.counter).length)
      machine.traceLine := by
  obtain ⟨window, hwindow, hbytes⟩ := exists_hexWords machine.snapshot.window
  obtain ⟨registers, hregisters, hcontents⟩ := exists_hexWords machine.snapshot.registers
  refine ⟨_, window, registers, ?_, Text.isUpperHex_upperHex machine.counter, hbytes, hcontents⟩
  rw [traceLine_eq_of_snapshot, hwindow, hregisters, List.cons_append, List.cons_append,
    Text.intercalate_blank]
  simp [snapshot]

example : (loaded {} {} ⟨[0x82, 1, 0xAB, 0x01], by decide⟩).step.machine.traceLine =
    "TRACE: 03 | 01 00 00 | 00 AB 00 00 00 00 00 00" := by
  decide +kernel

/-- Trace lines are equal exactly when they have the same to show. -/
theorem traceLine_eq_iff :
    first.traceLine = second.traceLine ↔ first.snapshot = second.snapshot := by
  refine ⟨fun hline => ?_, fun hsnapshot => ?_⟩
  · have hfirst := first.writtenAs_traceLine.ofLine?_eq
    rw [hline, second.writtenAs_traceLine.ofLine?_eq] at hfirst
    exact (Option.some.inj hfirst).symm
  · rw [traceLine_eq_of_snapshot, hsnapshot, ← traceLine_eq_of_snapshot]

/-- Machines have the same to show exactly when they agree on the counter, on the three bytes there
and on what is read from R0 to R7. -/
theorem snapshot_eq_iff :
    first.snapshot = second.snapshot ↔
      first.counter = second.counter ∧
      (∀ offset < 3, first.memory.peek (first.counter + offset) =
        second.memory.peek (second.counter + offset)) ∧
      ∀ number < 8, first.registers.read (.ofNat number) =
        second.registers.read (.ofNat number) := by
  have hread (registers : Registers) {number : Nat} (hplace : number < registerCount) :
      registers.read (.ofNat number) = .ok registers.cells[number] :=
    registers.read_ofNat ⟨number, hplace⟩
  unfold snapshot
  rw [Snapshot.mk.injEq, List.ofFn_inj, List.ofFn_inj, funext_iff, funext_iff, Fin.forall_iff,
    Fin.forall_iff]
  refine and_congr_right' (and_congr_right' (forall₂_congr fun number hlt => ?_))
  have hplace : number < registerCount := hlt.trans (by decide)
  rw [hread _ hplace, hread _ hplace, Except.ok.injEq]

/-- The address behind the memory takes three hexadecimal digits, every other counter two. -/
theorem counter_width (hcounter : machine.counter ≤ memorySize) :
    max 2 (Nat.toDigits 16 machine.counter).length = if machine.counter = 256 then 3 else 2 := by
  rcases hcounter.eq_or_lt with hbehind | hwithin
  · rw [if_pos hbehind, hbehind]
    rfl
  · have hlength : (Nat.toDigits 16 machine.counter).length ≤ 2 :=
      (Nat.length_toDigits_le_iff (by decide) (by decide)).mpr hwithin
    rw [if_neg hwithin.ne, max_eq_left hlength]

/-- From the trace line of a reachable machine the counter, the three bytes there and R0 to R7 are
read back, so another machine has the same line exactly when it agrees on these. -/
theorem trace_line_is_faithful (machine : Machine) (hreached : Reachable machine) :
    Snapshot.ofLine? machine.traceLine = some machine.snapshot ∧
    machine.snapshot.WrittenAs (if machine.counter = 256 then 3 else 2) machine.traceLine ∧
    machine.traceLine.length = (if machine.counter = 256 then 47 else 46) ∧
    ∀ other : Machine, other.traceLine = machine.traceLine ↔
      other.counter = machine.counter ∧
      (∀ offset < 3, other.memory.peek (other.counter + offset) =
        machine.memory.peek (machine.counter + offset)) ∧
      ∀ number < 8, other.registers.read (.ofNat number) =
        machine.registers.read (.ofNat number) := by
  have hwritten := machine.writtenAs_traceLine
  rw [counter_width hreached.counter_le] at hwritten
  refine ⟨hwritten.ofLine?_eq, hwritten, ?_, fun other => ?_⟩
  · have hwindow : machine.snapshot.window.length = 3 := List.length_ofFn
    have hregisters : machine.snapshot.registers.length = 8 := List.length_ofFn
    rw [hwritten.length_eq, hwindow, hregisters]
    split <;> rfl
  · rw [traceLine_eq_iff, snapshot_eq_iff]

/-- A program that jumps to address 253, where the host has put the load of a register, ends behind
the memory. What has been loaded into the reserved register is not in the line, but in R1 it is. -/
theorem trace_line_is_faithful_behindMemory :
    let session (number value : UInt8) : List Command :=
      [.load ⟨[0x82, 0, 253, 0x54, 0], by decide⟩, .writeMemory 253 0x82,
        .writeMemory 254 number, .writeMemory 255 value, .run]
    ∃ machine alike other : Machine,
      (new {} {}).after (session 8 5) = some machine ∧
      (new {} {}).after (session 8 6) = some alike ∧
      (new {} {}).after (session 1 5) = some other ∧
      Snapshot.ofLine? machine.traceLine = some ⟨256, [0, 0, 0], [253, 0, 0, 0, 0, 0, 0, 0]⟩ ∧
      machine.traceLine.length = 47 ∧
      alike.traceLine = machine.traceLine ∧ other.traceLine ≠ machine.traceLine := by
  intro session
  have hreserved : ∀ value ∈ [5, 6], ((new {} {}).after (session 8 value)).map snapshot =
      some ⟨256, [0, 0, 0], [253, 0, 0, 0, 0, 0, 0, 0]⟩ := by
    decide +kernel
  have hgeneral : ((new {} {}).after (session 1 5)).map snapshot =
      some ⟨256, [0, 0, 0], [253, 5, 0, 0, 0, 0, 0, 0]⟩ := by
    decide +kernel
  obtain ⟨machine, hmachine, hshown⟩ := Option.map_eq_some_iff.mp (hreserved 5 (by decide))
  obtain ⟨alike, halike, hsame⟩ := Option.map_eq_some_iff.mp (hreserved 6 (by decide))
  obtain ⟨other, hother, hdifferent⟩ := Option.map_eq_some_iff.mp hgeneral
  obtain ⟨hread, -, hlength, hagree⟩ :=
    trace_line_is_faithful machine ⟨{}, {}, session 8 5, hmachine⟩
  have hcounter : machine.counter = 256 := congrArg Snapshot.counter hshown
  refine ⟨machine, alike, other, hmachine, halike, hother, hread.trans (congrArg some hshown),
    hlength.trans (if_pos hcounter), ?_, fun heq => ?_⟩
  · exact (hagree alike).mpr (snapshot_eq_iff.mp (hsame.trans hshown.symm))
  · have hsnapshot := snapshot_eq_iff.mpr ((hagree other).mp heq)
    rw [hshown, hdifferent] at hsnapshot
    exact absurd hsnapshot (by decide)

end Machine

end ByteMachine
