import ByteMachine.Machine.Session
import ByteMachine.Proofs.Execution.Stepping
import Mathlib.Data.List.Basic

/-!
# Patching the memory

Once a program has been loaded, a host may write to the memory before anything is executed. Each
write that falls into the memory sets one byte and does nothing else, and each other one does
nothing. So the host might as well have patched the bytes of the program first and loaded the
result. An image itself is what copying its program into zeros gives, and zeros that are written out
at the end of a program are those that would stand there anyway.
-/

namespace ByteMachine

/-- Bytes after some writes, each an address and a value, in their order. Writes beyond the bytes
are left out. -/
def patched (bytes : List UInt8) (writes : List (Nat × UInt8)) : List UInt8 :=
  (writes.filter fun write => write.1 < bytes.length).foldl
    (fun bytes write => bytes.set write.1 write.2) bytes

/-- The last value that is written to an address. -/
def lastWritten? (writes : List (Nat × UInt8)) (address : Nat) : Option UInt8 :=
  (writes.filter fun write => write.1 = address).getLast?.map Prod.snd

/-- The writes that put bytes one behind the other, from an address on. -/
def copying (start : Nat) (bytes : List UInt8) : List (Nat × UInt8) :=
  (bytes.zipIdx start).map Prod.swap

/-- The first write comes first. -/
theorem patched_cons (bytes : List UInt8) (address : Nat) (value : UInt8)
    (writes : List (Nat × UInt8)) :
    patched bytes ((address, value) :: writes) = patched (bytes.set address value) writes := by
  unfold patched
  rw [List.length_set]
  by_cases h : address < bytes.length
  · rw [List.filter_cons_of_pos (by simpa using h), List.foldl_cons]
  · rw [List.filter_cons_of_neg (by simpa using h), List.set_eq_of_length_le (by omega)]

/-- Writes do not change how many bytes there are. -/
@[simp] theorem length_patched (bytes : List UInt8) (writes : List (Nat × UInt8)) :
    (patched bytes writes).length = bytes.length := by
  induction writes generalizing bytes with
  | nil => rfl
  | cons write writes ih => rw [patched_cons, ih, List.length_set]

/-- A later write to the address counts more. -/
theorem lastWritten?_cons (first address : Nat) (value : UInt8) (writes : List (Nat × UInt8)) :
    lastWritten? ((first, value) :: writes) address =
      (lastWritten? writes address).or (if first = address then some value else none) := by
  unfold lastWritten?
  by_cases h : first = address
  · rw [List.filter_cons_of_pos (by simpa using h), if_pos h, List.getLast?_cons]
    cases (writes.filter fun write => write.1 = address).getLast? <;> simp
  · rw [List.filter_cons_of_neg (by simpa using h), if_neg h, Option.or_none]

/-- After some writes, each byte is the one written last to its address, if there is one. -/
theorem getElem?_patched (bytes : List UInt8) (writes : List (Nat × UInt8)) (address : Nat) :
    (patched bytes writes)[address]? =
      bytes[address]?.map fun old => (lastWritten? writes address).getD old := by
  induction writes generalizing bytes with
  | nil => simp [patched, lastWritten?]
  | cons write writes ih =>
    obtain ⟨first, value⟩ := write
    rw [patched_cons, ih, lastWritten?_cons, List.getElem?_set]
    by_cases h : first = address
    · subst h
      by_cases hlt : first < bytes.length
      · cases lastWritten? writes first <;> simp [hlt]
      · simp [hlt]
    · cases lastWritten? writes address <;> simp [h]

/-- Bytes that are copied behind others take the place of as many zeros. -/
theorem patched_copying (before bytes : List UInt8) (zeros : Nat) :
    patched (before ++ List.replicate (bytes.length + zeros) 0) (copying before.length bytes) =
      before ++ bytes ++ List.replicate zeros 0 := by
  -- The first byte takes the place of the first zero and is one of those in front from then on.
  induction bytes generalizing before with
  | nil => simp [patched, copying]
  | cons byte bytes ih =>
    have hsize : (byte :: bytes).length + zeros = bytes.length + zeros + 1 := by
      rw [List.length_cons]
      omega
    have hset : (before ++ List.replicate (bytes.length + zeros + 1) 0).set before.length byte =
        (before ++ [byte]) ++ List.replicate (bytes.length + zeros) 0 := by
      rw [List.replicate_succ, List.set_append_right _ _ (Nat.le_refl _), Nat.sub_self,
        List.set_cons_zero, List.append_cons]
    have hrest := ih (before ++ [byte])
    rw [List.length_append, List.length_singleton] at hrest
    rw [hsize, copying, List.zipIdx_cons, List.map_cons]
    change patched _ ((before.length, byte) :: copying (before.length + 1) bytes) = _
    rw [patched_cons, hset, hrest, List.append_cons before byte bytes]

namespace Image

/-- The image of the whole memory after some writes. -/
def patched (image : Image) (writes : List (Nat × UInt8)) : Image where
  program := ByteMachine.patched image.bytes writes
  fits := Nat.le_of_eq (by rw [length_patched, bytes_length])

/-- The memory of a patched image is the patched memory of the image. -/
theorem memory_patched (image : Image) (writes : List (Nat × UInt8)) :
    (image.patched writes).memory.toList = ByteMachine.patched image.bytes writes := by
  have hfull : (image.patched writes).size = memorySize := by
    rw [size, patched, length_patched, bytes_length]
  rw [memory_toList, bytes, hfull, Nat.sub_self, List.replicate_zero, List.append_nil]
  rfl

/-- An image is made by copying its program into zeros. -/
theorem bytes_eq_patched (image : Image) :
    image.bytes = ByteMachine.patched (List.replicate memorySize 0) (copying 0 image.program) := by
  have hcopied := patched_copying [] image.program (memorySize - image.size)
  have hsize : image.program.length + (memorySize - image.size) = memorySize := by
    have := image.fits
    rw [size]
    omega
  rw [hsize] at hcopied
  exact hcopied.symm

/-- The program of an image stands at the beginning of its bytes. -/
theorem take_bytes (image : Image) : image.bytes.take image.size = image.program :=
  List.take_left' rfl

/-- Zeros at the end of a program make no difference to the memory. -/
theorem memory_eq_of_append_zeros {short long : Image} {zeros : Nat}
    (h : long.program = short.program ++ List.replicate zeros 0) : long.memory = short.memory := by
  apply Vector.toList_inj.mp
  have hfits := long.fits
  rw [memory_toList, memory_toList, bytes, bytes, size, size, h, List.append_assoc,
    List.replicate_append_replicate]
  rw [h, List.length_append, List.length_replicate] at hfits
  congr 2
  rw [List.length_append, List.length_replicate]
  omega

end Image

namespace Machine

/-- The commands that write to the memory, one for each write. -/
def writing (writes : List (Nat × UInt8)) : List Command :=
  writes.map fun write => .writeMemory write.1 write.2

/-- A write that falls into the memory sets one byte. -/
theorem writeMemory_of_lt (machine : Machine) {address : Nat} (value : UInt8)
    (h : address < memorySize) :
    machine.writeMemory address value =
      ⟨.ok (), { machine with memory := machine.memory.set address value }, []⟩ := by
  simp [writeMemory, Memory.write, h]

/-- Any other write names its address and does nothing. -/
theorem writeMemory_of_le (machine : Machine) {address : Nat} (value : UInt8)
    (h : memorySize ≤ address) :
    machine.writeMemory address value = ⟨.error (.outOfRange .memory address), machine, []⟩ := by
  simp [writeMemory, Memory.write_of_le _ _ h]

/-- A write sets the byte at its address, if there is one, and changes nothing else. -/
theorem exists_memory_writeMemory (machine : Machine) (address : Nat) (value : UInt8) :
    ∃ memory : Memory, memory.toList = machine.memory.toList.set address value ∧
      (machine.writeMemory address value).machine = { machine with memory } := by
  rcases Nat.lt_or_ge address memorySize with hlt | hge
  · rw [machine.writeMemory_of_lt value hlt]
    exact ⟨machine.memory.set address value, Vector.toList_set hlt, rfl⟩
  · rw [machine.writeMemory_of_le value hge]
    refine ⟨machine.memory, ?_, rfl⟩
    rw [List.set_eq_of_length_le (by simpa using hge)]

/-- Writes patch the memory and change nothing else. -/
theorem exists_memory_after_writing (machine : Machine) (writes : List (Nat × UInt8)) :
    ∃ memory : Memory, memory.toList = patched machine.memory.toList writes ∧
      machine.after (writing writes) = some { machine with memory } := by
  induction writes generalizing machine with
  | nil => exact ⟨machine.memory, rfl, rfl⟩
  | cons write writes ih =>
    obtain ⟨address, value⟩ := write
    obtain ⟨first, hfirst, hwritten⟩ := machine.exists_memory_writeMemory address value
    obtain ⟨memory, hmemory, hafter⟩ := ih { machine with memory := first }
    refine ⟨memory, ?_, ?_⟩
    · rw [hmemory, hfirst, patched_cons]
    · rw [writing, List.map_cons, after_cons]
      change (machine.writeMemory address value).machine.after (writing writes) = _
      rw [hwritten, hafter]

/-- Writing to the memory of a loaded machine leads where loading the patched image leads. -/
theorem after_load_writing (machine : Machine) (image : Image) (writes : List (Nat × UInt8)) :
    (machine.load image).machine.after (writing writes) =
      some (machine.load (image.patched writes)).machine := by
  obtain ⟨memory, hmemory, hafter⟩ :=
    (machine.load image).machine.exists_memory_after_writing writes
  have hsame : memory = (image.patched writes).memory := by
    apply Vector.toList_inj.mp
    rw [hmemory, Image.memory_patched, ← Image.memory_toList]
    rfl
  rw [hafter, hsame]
  rfl

/-- A loaded machine whose memory is written to is the same, in all its parts, as one that the
patched bytes have been loaded into. An image is made of its program alone. -/
theorem patching_is_loading_patched (machine : Machine) (image : Image)
    (writes : List (Nat × UInt8)) :
    let bytes := patched image.memory.toList writes
    (∃ image', Image.ofBytes bytes = .ok image' ∧ image'.size = 256 ∧
      (machine.load image).machine.after (writing writes) = some (machine.load image').machine) ∧
    (∀ address, bytes[address]? =
      image.memory.toList[address]?.map fun old => (lastWritten? writes address).getD old) ∧
    (∀ (before : Machine) (address : Nat) (value : UInt8),
      (∀ h : address < 256, before.writeMemory address value =
        ⟨.ok (), { before with memory := before.memory.set address value }, []⟩) ∧
      (256 ≤ address → before.writeMemory address value =
        ⟨.error (.outOfRange .memory address), before, []⟩)) ∧
    (∀ program zeros, program.length + zeros ≤ 256 →
      ∃ short long, Image.ofBytes program = .ok short ∧
        Image.ofBytes (program ++ List.replicate zeros 0) = .ok long ∧ short.program = program ∧
        (machine.load long).machine = (machine.load short).machine) ∧
    image.memory.toList = image.program ++ List.replicate (256 - image.size) 0 ∧
    image.memory.toList = patched (List.replicate 256 0) (copying 0 image.program) ∧
    image.program = image.memory.toList.take image.size ∧
    Image.ofBytes image.program = .ok image := by
  intro bytes
  have hbytes : bytes = patched image.bytes writes := by rw [← Image.memory_toList]
  refine ⟨⟨image.patched writes, ?_, ?_, machine.after_load_writing image writes⟩,
    getElem?_patched _ writes, fun before address value => ⟨before.writeMemory_of_lt value,
    before.writeMemory_of_le value⟩, fun program zeros hfits => ?_, image.memory_toList,
    image.memory_toList.trans image.bytes_eq_patched, ?_, image.ofBytes_program⟩
  · rw [hbytes]
    exact Image.ofBytes_program (image.patched writes)
  · rw [Image.size, Image.patched, length_patched, Image.bytes_length]
  · have hshort : program.length ≤ memorySize := Nat.le_trans (Nat.le_add_right _ zeros) hfits
    have hlong : (program ++ List.replicate zeros 0).length ≤ memorySize := by simpa using hfits
    have hmemory : (Image.mk _ hlong).memory = (Image.mk program hshort).memory :=
      Image.memory_eq_of_append_zeros rfl
    refine ⟨⟨program, hshort⟩, ⟨_, hlong⟩, Image.ofBytes_program ⟨program, hshort⟩,
      Image.ofBytes_program ⟨_, hlong⟩, rfl, ?_⟩
    unfold load
    rw [hmemory]
  · rw [Image.memory_toList, image.take_bytes]

/-- A stop instruction is written over twice, a byte is written to the last address and two beyond
it, the farther one at the largest number of 64 bits. A stop instruction alone may be followed by as
many zeros as the memory still holds. -/
theorem patching_is_loading_patched_doubling :
    let writes := [(22, 0x47), (256, 1), (22, 0xA7), (255, 9), (18446744073709551615, 7)]
    let bytes := patched doubling.memory.toList writes
    let used := (loaded {} {} doubling).stepped 40
    bytes[22]? = some 0xA7 ∧ bytes[255]? = some 9 ∧ bytes[256]? = none ∧
      (∃ image', Image.ofBytes bytes = .ok image' ∧
        (used.load doubling).machine.after (writing writes) = some (used.load image').machine) ∧
      used.writeMemory 255 9 = ⟨.ok (), { used with memory := used.memory.set 255 9 }, []⟩ ∧
      used.writeMemory 18446744073709551615 7 =
        ⟨.error (.outOfRange .memory 18446744073709551615), used, []⟩ ∧
      ∃ short long, Image.ofBytes [0x01] = .ok short ∧
        Image.ofBytes ([0x01] ++ List.replicate 255 0) = .ok long ∧
        (used.load long).machine = (used.load short).machine := by
  intro writes bytes used
  obtain ⟨⟨image', himage', -, hafter⟩, hbytes, hwrites, hpadding, -⟩ :=
    patching_is_loading_patched used doubling writes
  obtain ⟨short, long, hshort, hlong, -, hsame⟩ := hpadding [0x01] 255 (by decide)
  have hlast := hbytes 22
  have hend := hbytes 255
  have hbeyond := hbytes 256
  refine ⟨hlast.trans (by decide +kernel), hend.trans (by decide +kernel),
    hbeyond.trans (by decide +kernel), ⟨image', himage', hafter⟩,
    (hwrites used 255 9).1 (by decide), (hwrites used 18446744073709551615 7).2 (by decide), short,
    long, hshort, hlong, hsame⟩

end Machine

end ByteMachine
