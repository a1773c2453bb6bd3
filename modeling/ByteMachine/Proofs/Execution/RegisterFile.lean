import ByteMachine.Proofs.Execution.InstructionSet
import Mathlib.Data.ZMod.Basic

/-!
# The register file as nine integers modulo 256

The register file is described once more, as nine integers modulo 256 beside the outcome of the last
comparison. Whatever calls are made one after the other on a new file, with whatever register
numbers, each of them answers what it answers there and leaves the same contents behind, also after
calls that failed. What a single call does to the file, and that it does nothing when one of its
registers does not exist, is told for every file.
-/

namespace ByteMachine

/-- What can be asked of a register file: to read a register, to write one, to set the flag by the
order of two, or to replace the first of two by an operation on both. -/
inductive RegisterCall where
  | read (number : UInt8)
  | write (number value : UInt8)
  | compare (a b : UInt8)
  | compute (operation : Arithmetic) (a b : UInt8)

namespace RegisterCall

/-- The register numbers of a call, the first one first. -/
def numbers : RegisterCall → List UInt8
  | .read number => [number]
  | .write number _ => [number]
  | .compare a b => [a, b]
  | .compute _ a b => [a, b]

/-- The first register number of a call that is too large, if there is one. -/
def missing? (call : RegisterCall) : Option UInt8 :=
  call.numbers.find? fun number => 8 < number.toNat

end RegisterCall

/-- Nine integers modulo 256, and how the two that were compared last were ordered, if any were. -/
@[ext] structure Cells where
  value : Fin 9 → ZMod 256 := fun _ => 0
  order : Option Ordering := none

/-- A byte as an integer modulo 256. -/
def residue (byte : UInt8) : ZMod 256 :=
  byte.toNat

/-- The operation on integers modulo 256. -/
def Arithmetic.modulo : Arithmetic → ZMod 256 → ZMod 256 → ZMod 256
  | .add, left, right => left + right
  | .sub, left, right => left - right
  | .mul, left, right => left * right

/-- How the values of the last comparison were ordered. -/
def Flags.order? : Flags → Option Ordering
  | .none => Option.none
  | .equal => some .eq
  | .less => some .lt
  | .greater => some .gt

namespace Cells

/-- The cell with a number. -/
def place (number : UInt8) : Fin 9 :=
  Fin.ofNat 9 number.toNat

/-- Carry out a call on cells: the answer, and the cells afterwards. A call that names a cell that
does not exist answers the first such number and does nothing. -/
def obey (cells : Cells) (call : RegisterCall) : Except Fault (Option (ZMod 256)) × Cells :=
  match call.missing? with
  | some number => (.error (.outOfRange .register number.toNat), cells)
  | none =>
    match call with
    | .read number => (.ok (some (cells.value (place number))), cells)
    | .write number value =>
      (.ok none, { cells with
        value := Function.update cells.value (place number) (residue value) })
    | .compare a b =>
      (.ok none, { cells with
        order := some (compare (cells.value (place a)).val (cells.value (place b)).val) })
    | .compute operation a b =>
      (.ok none, { cells with
        value := Function.update cells.value (place a)
          (operation.modulo (cells.value (place a)) (cells.value (place b))) })

/-- What each of some calls answers, and the cells behind it. -/
def history (cells : Cells) :
    List RegisterCall → List (Except Fault (Option (ZMod 256)) × Cells)
  | [] => []
  | call :: calls => cells.obey call :: (cells.obey call).2.history calls

end Cells

namespace Registers

/-- The answer of a change, and the file as the change leaves it, succeeded or failed. -/
def answered : EStateM.Result Fault Registers Unit → Except Fault (Option UInt8) × Registers
  | .ok () after => (.ok none, after)
  | .error fault after => (.error fault, after)

/-- Carry out a call on a file in place: the answer, and the file afterwards. -/
def obey (registers : Registers) : RegisterCall → Except Fault (Option UInt8) × Registers
  | .read number => ((registers.read number).map some, registers)
  | .write number value => answered ((write number value).run registers)
  | .compare a b => answered ((compare a b).run registers)
  | .compute operation a b => answered ((compute operation a b).run registers)

/-- What each of some calls answers, and the file behind it. -/
def history (registers : Registers) :
    List RegisterCall → List (Except Fault (Option UInt8) × Registers)
  | [] => []
  | call :: calls => registers.obey call :: (registers.obey call).2.history calls

/-- The contents of a file as integers modulo 256. -/
def view (registers : Registers) : Cells where
  value place := residue registers.cells[place]
  order := registers.flags.order?

end Registers

/-- The integer of a byte is its value. -/
@[simp] theorem val_residue (byte : UInt8) : (residue byte).val = byte.toNat := by
  rw [residue, ZMod.val_natCast, Nat.mod_eq_of_lt byte.toNat_lt]

/-- Different bytes are different integers. -/
theorem residue_injective : Function.Injective residue := by
  intro first second h
  have hval := congrArg ZMod.val h
  rw [val_residue, val_residue] at hval
  exact UInt8.toNat_inj.mp hval

/-- Arithmetic on bytes is arithmetic modulo 256. -/
theorem residue_apply (operation : Arithmetic) (left right : UInt8) :
    residue (operation.apply left right) = operation.modulo (residue left) (residue right) := by
  unfold residue
  cases operation with
  | add =>
    rw [Arithmetic.apply, UInt8.toNat_add]
    exact (ZMod.natCast_mod _ 256).trans (Nat.cast_add _ _)
  | sub =>
    have hle : right.toNat ≤ 2 ^ 8 := Nat.le_of_lt right.toNat_lt
    have hzero : ((2 ^ 8 : ℕ) : ZMod 256) = 0 := ZMod.natCast_self 256
    rw [Arithmetic.apply, UInt8.toNat_sub, ← Nat.sub_add_comm hle]
    refine (ZMod.natCast_mod _ 256).trans ?_
    rw [Nat.cast_sub (by omega), Nat.cast_add, hzero, zero_add]
    rfl
  | mul =>
    rw [Arithmetic.apply, UInt8.toNat_mul]
    exact (ZMod.natCast_mod _ 256).trans (Nat.cast_mul _ _)

/-- A comparison sets the flag to the order of the values. -/
theorem Flags.order?_ofValues (left right : UInt8) :
    (ofValues left right).order? = some (compare left.toNat right.toNat) := by
  rw [ofValues_eq_compare]
  cases compare left.toNat right.toNat <;> rfl

/-- A flag is known by the order that it stands for. -/
theorem Flags.order?_injective : Function.Injective order? := by
  intro first second h
  cases first <;> cases second <;> first | rfl | cases h

/-- Nothing is missing exactly when every number is one of a register. -/
theorem RegisterCall.missing?_eq_none_iff {call : RegisterCall} :
    call.missing? = none ↔ ∀ number ∈ call.numbers, number.toNat < registerCount := by
  simp only [missing?, List.find?_eq_none, decide_eq_true_eq]
  exact forall₂_congr fun number _ => Nat.not_lt.trans Nat.lt_succ_iff.symm

/-- On cells a call of which nothing is missing succeeds. -/
theorem Cells.exists_answer (cells : Cells) {call : RegisterCall} (h : call.missing? = none) :
    ∃ answer, (cells.obey call).1 = .ok answer := by
  simp only [obey, h]
  cases call <;> exact ⟨_, rfl⟩

namespace Registers

variable {a b number : UInt8} {call : RegisterCall}

/-- An operation on two registers that exist replaces the first one. -/
theorem run_compute_of_lt (registers : Registers) (operation : Arithmetic)
    (ha : a.toNat < registerCount) (hb : b.toNat < registerCount) :
    (compute operation a b).run registers = .ok () { registers with
      cells := registers.cells.set a.toNat
        (operation.apply registers.cells[a.toNat] registers.cells[b.toNat]) } := by
  refine run_lookUp_bind_eq_ok_iff.mpr ⟨_, read_of_lt registers ha, ?_⟩
  refine run_lookUp_bind_eq_ok_iff.mpr ⟨_, read_of_lt registers hb, ?_⟩
  exact run_write_of_lt registers _ ha

/-- A comparison of two registers that exist sets the flag. -/
theorem run_compare_of_lt (registers : Registers) (ha : a.toNat < registerCount)
    (hb : b.toNat < registerCount) :
    (compare a b).run registers = .ok () { registers with
      flags := .ofValues registers.cells[a.toNat] registers.cells[b.toNat] } := by
  refine run_lookUp_bind_eq_ok_iff.mpr ⟨_, read_of_lt registers ha, ?_⟩
  exact run_lookUp_bind_eq_ok_iff.mpr ⟨_, read_of_lt registers hb, rfl⟩

/-- A change that fails answers its fault, and leaves the file as it was. -/
theorem answered_of_missing (registers : Registers) {change : Change Unit} {numbers : List UInt8}
    {fault : Fault} (hfails : change.FailsFor numbers) (h : missing? numbers = some fault) :
    answered (change.run registers) = (.error fault, registers) := by
  rw [(hfails registers registers fault).mpr ⟨h, rfl⟩, answered]

/-- A call that names a register that does not exist fails for the first one and changes nothing. -/
theorem obey_of_missing (registers : Registers) (h : call.missing? = some number) :
    registers.obey call = (.error (.outOfRange .register number.toNat), registers) := by
  have hmissing : missing? call.numbers = some (.outOfRange .register number.toNat) :=
    congrArg (Option.map _) h
  cases call with
  | read first =>
    rw [obey, read_eq_error_iff.mpr hmissing]
    rfl
  | write first value => exact registers.answered_of_missing (write_failsFor first value) hmissing
  | compare a b => exact registers.answered_of_missing (compare_failsFor a b) hmissing
  | compute operation a b =>
    exact registers.answered_of_missing (compute_failsFor operation a b) hmissing

/-- The cell of a register holds the integer of its byte. -/
theorem view_value_place (registers : Registers) (h : a.toNat < registerCount) :
    registers.view.value (Cells.place a) = residue registers.cells[a.toNat] := by
  have hplace : Cells.place a = ⟨a.toNat, h⟩ := Fin.ext (Nat.mod_eq_of_lt h)
  rw [hplace]
  rfl

/-- A register is replaced in its cell. -/
theorem view_set (registers : Registers) (value : UInt8) (h : a.toNat < registerCount) :
    view { registers with cells := registers.cells.set a.toNat value } =
      { registers.view with
        value := Function.update registers.view.value (Cells.place a) (residue value) } := by
  have hplace : Cells.place a = ⟨a.toNat, h⟩ := Fin.ext (Nat.mod_eq_of_lt h)
  refine Cells.ext (funext fun place => ?_) rfl
  change residue ((registers.cells.set a.toNat value)[place.val]) =
    Function.update registers.view.value (Cells.place a) (residue value) place
  rw [hplace, Function.update_apply, Vector.getElem_set]
  by_cases hsame : place = ⟨a.toNat, h⟩
  · rw [if_pos hsame, hsame, if_pos rfl]
  · rw [if_neg hsame, if_neg fun heq => hsame (Fin.ext heq.symm)]
    rfl

/-- The contents of a file are known by the integers in its cells and the order of the last
comparison. -/
theorem view_injective : Function.Injective view := by
  intro first second h
  refine Registers.ext (Vector.ext fun place hlt => ?_) ?_
  · exact residue_injective (congrFun (congrArg Cells.value h) ⟨place, hlt⟩)
  · exact Flags.order?_injective (congrArg Cells.order h)

/-- An answer with the file behind it, in integers modulo 256. -/
def report (result : Except Fault (Option UInt8) × Registers) :
    Except Fault (Option (ZMod 256)) × Cells :=
  (result.1.map (Option.map residue), result.2.view)

/-- What is reported of a call determines its answer and the file. -/
theorem report_injective : Function.Injective report := by
  rintro ⟨first, registers⟩ ⟨second, other⟩ h
  have hanswer : Function.Injective (Except.map (ε := Fault) (Option.map residue)) := by
    rintro (fault | answer) (cause | reply) heq
    · cases heq
      rfl
    · cases heq
    · cases heq
    · exact congrArg Except.ok (Option.map_injective residue_injective (Except.ok.inj heq))
  exact Prod.ext (hanswer (congrArg Prod.fst h)) (view_injective (congrArg Prod.snd h))

/-- A new file holds nine zeros, and nothing has been compared. -/
theorem view_new : ({} : Registers).view = {} := by
  refine Cells.ext (funext fun place => ?_) rfl
  change residue (Vector.replicate registerCount 0)[place.val] = 0
  rw [Vector.getElem_replicate]
  rfl

/-- A call on a file is the call on its cells. -/
theorem obey_view (registers : Registers) (call : RegisterCall) :
    registers.view.obey call = report (registers.obey call) := by
  cases hmissing : call.missing? with
  | some number =>
    rw [registers.obey_of_missing hmissing]
    simp only [Cells.obey, hmissing]
    rfl
  | none =>
    -- Past the check every register exists, and its byte stands in the cell with its number.
    have hplaces := RegisterCall.missing?_eq_none_iff.mp hmissing
    cases call with
    | read number =>
      have hnumber := hplaces number (by simp [RegisterCall.numbers])
      simp only [Cells.obey, hmissing]
      rw [obey, read_of_lt registers hnumber, registers.view_value_place hnumber]
      rfl
    | write number value =>
      have hnumber := hplaces number (by simp [RegisterCall.numbers])
      simp only [Cells.obey, hmissing]
      rw [obey, run_write_of_lt registers value hnumber, ← registers.view_set value hnumber]
      rfl
    | compare a b =>
      have ha := hplaces a (by simp [RegisterCall.numbers])
      have hb := hplaces b (by simp [RegisterCall.numbers])
      simp only [Cells.obey, hmissing]
      rw [obey, registers.run_compare_of_lt ha hb, registers.view_value_place ha,
        registers.view_value_place hb, val_residue, val_residue, ← Flags.order?_ofValues]
      rfl
    | compute operation a b =>
      have ha := hplaces a (by simp [RegisterCall.numbers])
      have hb := hplaces b (by simp [RegisterCall.numbers])
      simp only [Cells.obey, hmissing]
      rw [obey, registers.run_compute_of_lt operation ha hb, registers.view_value_place ha,
        registers.view_value_place hb, ← residue_apply, ← registers.view_set _ ha]
      rfl

/-- Calls on a file are the calls on its cells. -/
theorem history_view (registers : Registers) (calls : List RegisterCall) :
    registers.view.history calls = (registers.history calls).map report := by
  induction calls generalizing registers with
  | nil => rfl
  | cons call calls ih =>
    rw [Cells.history, history, List.map_cons, registers.obey_view call]
    exact congrArg _ (ih (registers.obey call).2)

/-- Two files that differ in one register at most. -/
structure SameBut (number : UInt8) (before after : Registers) : Prop where
  flags : after.flags = before.flags
  read : ∀ other, other ≠ number → after.read other = before.read other

/-- A register reads alike in two files that hold the same there. -/
theorem read_congr {first second : Registers}
    (h : first.cells[number.toNat]? = second.cells[number.toNat]?) :
    first.read number = second.read number := by
  by_cases hnumber : number.toNat < registerCount
  · rw [Vector.getElem?_eq_getElem hnumber, Vector.getElem?_eq_getElem hnumber] at h
    rw [read_of_lt first hnumber, read_of_lt second hnumber, Option.some.inj h]
  · rw [read_of_le first (Nat.not_lt.mp hnumber), read_of_le second (Nat.not_lt.mp hnumber)]

/-- Files with the same flag whose registers all read alike are the same. -/
theorem eq_of_read {first second : Registers} (hflags : first.flags = second.flags)
    (hread : ∀ number, first.read number = second.read number) : first = second := by
  refine Registers.ext (Vector.ext fun place hlt => ?_) hflags
  have hnumber : (UInt8.ofNat place).toNat = place :=
    UInt8.toNat_ofNat_of_lt' (Nat.lt_of_lt_of_le hlt (by decide))
  have hsame := hread (UInt8.ofNat place)
  rw [read_of_lt first (hnumber.symm ▸ hlt), read_of_lt second (hnumber.symm ▸ hlt)] at hsame
  simpa [hnumber] using hsame

/-- A write that succeeds changes its register and nothing else. -/
theorem write_changes {registers changed : Registers} {value : UInt8}
    (h : (write a value).run registers = .ok () changed) :
    changed.read a = .ok value ∧ SameBut a registers changed := by
  obtain ⟨⟨old, hold⟩, rfl⟩ := run_write_eq_ok_iff.mp h
  have ha : a.toNat < registerCount := (Vector.getElem?_eq_some_iff.mp hold).1
  refine ⟨read_eq_ok_iff.mpr (Vector.getElem?_setIfInBounds_self_of_lt ha), rfl, ?_⟩
  intro other hother
  have hplace : a.toNat ≠ other.toNat := fun heq => hother (UInt8.toNat_inj.mp heq).symm
  exact read_congr (Vector.getElem?_setIfInBounds_ne hplace)

/-- A file differs from itself in no register. -/
theorem SameBut.refl (number : UInt8) (registers : Registers) :
    SameBut number registers registers :=
  ⟨rfl, fun _ _ => rfl⟩

/-- What a call may change: a read nothing, a write or an operation its first register, and a
comparison the flag. -/
def Spares : RegisterCall → Registers → Registers → Prop
  | .read _, before, after => after = before
  | .write a _, before, after => SameBut a before after
  | .compare _ _, before, after => after.cells = before.cells
  | .compute _ a _, before, after => SameBut a before after

/-- A call changes no more than it may, whether it succeeds or fails. -/
theorem obey_spares (registers : Registers) (call : RegisterCall) :
    Spares call registers (registers.obey call).2 := by
  cases call with
  | read number => exact rfl
  | write a value =>
    change SameBut a registers (answered ((write a value).run registers)).2
    cases hwrite : (write a value).run registers with
    | error fault after =>
      obtain ⟨-, rfl⟩ := (write_failsFor a value registers after fault).mp hwrite
      exact .refl a _
    | ok _ changed => exact (write_changes hwrite).2
  | compare a b =>
    change (answered ((compare a b).run registers)).2.cells = registers.cells
    cases hcompare : (compare a b).run registers with
    | error fault after =>
      obtain ⟨-, rfl⟩ := (compare_failsFor a b registers after fault).mp hcompare
      rfl
    | ok _ changed =>
      obtain ⟨left, right, -, -, rfl⟩ := run_compare_eq_ok_iff.mp hcompare
      rfl
  | compute operation a b =>
    change SameBut a registers (answered ((compute operation a b).run registers)).2
    cases hcompute : (compute operation a b).run registers with
    | error fault after =>
      obtain ⟨-, rfl⟩ := (compute_failsFor operation a b registers after fault).mp hcompute
      exact .refl a _
    | ok _ changed =>
      obtain ⟨left, -, hrest⟩ := run_lookUp_bind_eq_ok_iff.mp hcompute
      obtain ⟨right, -, hwrite⟩ := run_lookUp_bind_eq_ok_iff.mp hrest
      exact (write_changes hwrite).2

/-- A call succeeds exactly when all its registers exist. -/
theorem exists_answer_iff (registers : Registers) (call : RegisterCall) :
    (∃ answer, (registers.obey call).1 = .ok answer) ↔
      ∀ number ∈ call.numbers, number.toNat ≤ 8 := by
  have hsmall : (∀ number ∈ call.numbers, number.toNat ≤ 8) ↔ call.missing? = none :=
    (forall₂_congr fun _ _ => Nat.lt_succ_iff.symm).trans RegisterCall.missing?_eq_none_iff.symm
  rw [hsmall]
  cases hmissing : call.missing? with
  | some number => simp [registers.obey_of_missing hmissing]
  | none =>
    -- On the cells there is nothing left to check, and the file answers what they answer.
    obtain ⟨answer, hanswer⟩ := registers.view.exists_answer hmissing
    rw [registers.obey_view call, report] at hanswer
    refine iff_of_true ?_ rfl
    cases hobeyed : (registers.obey call).1 with
    | error fault =>
      rw [hobeyed] at hanswer
      cases hanswer
    | ok answer => exact ⟨answer, rfl⟩

/-- A register that has been read can be written. -/
theorem exists_write {registers : Registers} {value : UInt8} (h : registers.read a = .ok value)
    (other : UInt8) : ∃ changed, (write a other).run registers = .ok () changed :=
  ⟨_, run_write_eq_ok_iff.mpr ⟨⟨value, read_eq_ok_iff.mp h⟩, rfl⟩⟩

/-- An operation on two registers that have been read puts its result into the first one and changes
nothing else. -/
theorem exists_compute {registers : Registers} {left right : UInt8}
    (hleft : registers.read a = .ok left) (hright : registers.read b = .ok right)
    (operation : Arithmetic) :
    ∃ changed, (compute operation a b).run registers = .ok () changed ∧
      changed.read a = .ok (operation.apply left right) ∧ SameBut a registers changed := by
  obtain ⟨changed, hwrite⟩ := exists_write hleft (operation.apply left right)
  refine ⟨changed, run_lookUp_bind_eq_ok_iff.mpr ⟨left, hleft, ?_⟩, write_changes hwrite⟩
  exact run_lookUp_bind_eq_ok_iff.mpr ⟨right, hright, hwrite⟩

/-- Adding a register and subtracting it again restores the file, if it is another one. -/
theorem add_sub_restores {registers : Registers} {left right : UInt8}
    (hleft : registers.read a = .ok left) (hright : registers.read b = .ok right) (hne : b ≠ a) :
    ∃ added, (compute .add a b).run registers = .ok () added ∧
      (compute .sub a b).run added = .ok () registers := by
  obtain ⟨added, hadd, hsum, hadded⟩ := exists_compute hleft hright .add
  obtain ⟨restored, hsub, hdifference, hrestored⟩ :=
    exists_compute hsum ((hadded.read b hne).trans hright) .sub
  refine ⟨added, hadd, ?_⟩
  have hvalue : Arithmetic.sub.apply (Arithmetic.add.apply left right) right = left :=
    UInt8.add_sub_cancel left right
  have hsame : restored = registers := by
    refine eq_of_read (hrestored.flags.trans hadded.flags) fun number => ?_
    by_cases hnumber : number = a
    · rw [hnumber, hdifference, hvalue, hleft]
    · rw [hrestored.read number hnumber, hadded.read number hnumber]
  rw [hsub, hsame]

/-- A product below 256 is exact. -/
theorem mul_exact {registers : Registers} {left right : UInt8}
    (hleft : registers.read a = .ok left) (hright : registers.read b = .ok right)
    (hsmall : left.toNat * right.toNat < 256) :
    ∃ changed product, (compute .mul a b).run registers = .ok () changed ∧
      changed.read a = .ok product ∧ product.toNat = left.toNat * right.toNat := by
  obtain ⟨changed, hmul, hproduct, -⟩ := exists_compute hleft hright .mul
  refine ⟨changed, _, hmul, hproduct, ?_⟩
  rw [Arithmetic.apply, UInt8.toNat_mul]
  exact Nat.mod_eq_of_lt hsmall

/-- Where both registers are the same one, a sum is its double, a difference is zero, a product is
its square, and a comparison finds equal values. -/
theorem compute_self {registers : Registers} {value : UInt8} (h : registers.read a = .ok value) :
    (∃ changed double, (compute .add a a).run registers = .ok () changed ∧
      changed.read a = .ok double ∧ double.toNat = 2 * value.toNat % 256) ∧
    (∃ changed, (compute .sub a a).run registers = .ok () changed ∧ changed.read a = .ok 0) ∧
    (∃ changed square, (compute .mul a a).run registers = .ok () changed ∧
      changed.read a = .ok square ∧ square.toNat = value.toNat ^ 2 % 256) ∧
    (compare a a).run registers = .ok () { registers with flags := .equal } := by
  obtain ⟨added, hadd, hdouble, -⟩ := exists_compute h h .add
  obtain ⟨subtracted, hsub, hzero, -⟩ := exists_compute h h .sub
  obtain ⟨multiplied, hmul, hsquare, -⟩ := exists_compute h h .mul
  refine ⟨⟨added, _, hadd, hdouble, ?_⟩, ⟨subtracted, hsub, ?_⟩, ⟨multiplied, _, hmul, hsquare, ?_⟩,
    ?_⟩
  · rw [Arithmetic.apply, UInt8.toNat_add, Nat.two_mul]
  · rw [hzero, Arithmetic.apply, UInt8.sub_self]
  · rw [Arithmetic.apply, UInt8.toNat_mul, Nat.pow_two]
  · have hcell := read_eq_ok_iff.mp h
    refine run_compare_eq_ok_iff.mpr ⟨value, value, hcell, hcell, ?_⟩
    rw [Flags.ofValues_eq_equal_iff.mpr rfl]

/-- The register file is nine integers modulo 256 with a flag beside them, whatever calls are made
on a new file. A call succeeds exactly when all its registers exist, and otherwise names the first
one that does not and leaves the file as it was. -/
theorem registers_are_nine_cells (calls : List RegisterCall) :
    ({} : Cells).history calls = (({} : Registers).history calls).map report ∧
    Function.Injective report ∧
    (∀ (registers : Registers) (call : RegisterCall),
      ((∃ answer, (registers.obey call).1 = .ok answer) ↔
        ∀ number ∈ call.numbers, number.toNat ≤ 8) ∧
      (∀ number, call.missing? = some number →
        registers.obey call = (.error (.outOfRange .register number.toNat), registers)) ∧
      Spares call registers (registers.obey call).2) ∧
    (∀ (registers : Registers) (a value : UInt8), registers.read a = .ok value →
      (∃ changed double, (compute .add a a).run registers = .ok () changed ∧
        changed.read a = .ok double ∧ double.toNat = 2 * value.toNat % 256) ∧
      (∃ changed, (compute .sub a a).run registers = .ok () changed ∧ changed.read a = .ok 0) ∧
      (∃ changed square, (compute .mul a a).run registers = .ok () changed ∧
        changed.read a = .ok square ∧ square.toNat = value.toNat ^ 2 % 256) ∧
      (compare a a).run registers = .ok () { registers with flags := .equal }) ∧
    ∀ (registers : Registers) (a b left right : UInt8), registers.read a = .ok left →
      registers.read b = .ok right →
      (b ≠ a → ∃ added, (compute .add a b).run registers = .ok () added ∧
        (compute .sub a b).run added = .ok () registers) ∧
      (left.toNat * right.toNat < 256 → ∃ changed product,
        (compute .mul a b).run registers = .ok () changed ∧ changed.read a = .ok product ∧
          product.toNat = left.toNat * right.toNat) := by
  refine ⟨?_, report_injective, fun registers call => ⟨registers.exists_answer_iff call,
    fun number => registers.obey_of_missing, registers.obey_spares call⟩,
    fun registers a value => compute_self, fun registers a b left right hleft hright =>
    ⟨add_sub_restores hleft hright, mul_exact hleft hright⟩⟩
  rw [← view_new]
  exact Registers.history_view {} calls

/-- Nine is written to the reserved register, and there it is doubled and the double squared. A
comparison with a register that does not exist fails and names it. -/
theorem registers_are_nine_cells_reserved :
    let calls := [.write 8 9, .compute .add 8 8, .compute .mul 8 8, .compare 8 200, .read 8]
    let file : Registers := (({} : Registers).obey (.write 8 9)).2
    ({} : Cells).history calls = (({} : Registers).history calls).map report ∧
      (({} : Registers).history calls).map Prod.fst =
        [.ok none, .ok none, .ok none, .error (.outOfRange .register 200), .ok (some 68)] ∧
      file.obey (.compare 8 200) = (.error (.outOfRange .register 200), file) ∧
      (∃ changed, (compute .sub 8 8).run file = .ok () changed ∧ changed.read 8 = .ok 0) ∧
      (∃ added, (compute .add 8 0).run file = .ok () added ∧
        (compute .sub 8 0).run added = .ok () file) ∧
      ∃ changed product, (compute .mul 8 8).run file = .ok () changed ∧
        changed.read 8 = .ok product ∧ product.toNat = 81 := by
  intro calls file
  obtain ⟨hhistory, -, hcalls, hself, hpairs⟩ := registers_are_nine_cells calls
  have hread : file.read 8 = .ok 9 := rfl
  have hzero : file.read 0 = .ok 0 := rfl
  exact ⟨hhistory, by decide +kernel, (hcalls file (.compare 8 200)).2.1 200 rfl,
    (hself file 8 9 hread).2.1, (hpairs file 8 0 9 0 hread hzero).1 (by decide),
    (hpairs file 8 8 9 9 hread hread).2 (by decide)⟩

end Registers

end ByteMachine
