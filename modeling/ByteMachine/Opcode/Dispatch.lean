import ByteMachine.Opcode.Execution

/-!
# The dispatch table

Handlers of the instructions in the order of the instruction set. A byte is looked up in two stages:
it is read back into an instruction, and the index of the instruction is the slot in the table. That
order and indices agree is `DispatchTable.new_slot`; a byte that is no instruction never reaches the
table.
-/

namespace ByteMachine

/-- One handler in a slot for each instruction. -/
structure DispatchTable where
  handlers : List Handler
  complete : handlers.length = Opcode.all.length

namespace DispatchTable

/-- The table of every machine: an instruction is handled by its execution. -/
def new : DispatchTable where
  handlers := Opcode.all.map Opcode.execute
  complete := List.length_map _

/-- The handler in the slot of an instruction. -/
def slot (table : DispatchTable) (op : Opcode) : Handler :=
  table.handlers.get ⟨op.index, table.complete ▸ op.index_lt⟩

/-- The handler for a byte; a byte that is no instruction is a fault. -/
def lookup (table : DispatchTable) (byte : UInt8) : Except Fault Handler := do
  let op ← Opcode.ofByte byte
  return table.slot op

/-- In the slot of an instruction stands its execution. -/
theorem new_slot (op : Opcode) : new.slot op = op.execute := by
  have hslot : (Opcode.all.map Opcode.execute)[op.index]? = some op.execute := by
    rw [List.getElem?_map, op.all_getElem?_index, Option.map_some]
  exact (List.getElem?_eq_some_iff.mp hslot).2

/-- Looking up a byte in the table finds the execution of the instruction that it encodes. -/
theorem lookup_new (byte : UInt8) :
    new.lookup byte = (Opcode.ofByte byte).map Opcode.execute := by
  unfold lookup
  cases Opcode.ofByte byte with
  | error fault => rfl
  | ok op => exact congrArg Except.ok (new_slot op)

end DispatchTable

end ByteMachine
