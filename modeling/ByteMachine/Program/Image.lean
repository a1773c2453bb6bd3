import ByteMachine.Program.Error

/-!
# Program images

An image is a program short enough for the memory. Loading it puts the program at address 0 and
zeros behind it.
-/

namespace ByteMachine

/-- A program that fits into memory, from address 0 on. -/
@[ext] structure Image where
  program : List UInt8
  fits : program.length ≤ memorySize
  deriving DecidableEq, Repr

namespace Image

/-- The image of a list of bytes, unless there are too many. -/
def ofBytes (bytes : List UInt8) : Except LoadError Image :=
  if h : bytes.length ≤ memorySize then .ok ⟨bytes, h⟩
  else .error (.programTooLarge bytes.length)

/-- Number of bytes in the program. -/
def size (image : Image) : Nat :=
  image.program.length

/-- The bytes of the memory once the image is loaded. -/
def bytes (image : Image) : List UInt8 :=
  image.program ++ List.replicate (memorySize - image.size) 0

/-- The loaded bytes fill the memory exactly. -/
theorem bytes_length (image : Image) : image.bytes.length = memorySize := by
  have := image.fits
  simp only [bytes, size, List.length_append, List.length_replicate]
  omega

/-- The memory once the image is loaded. -/
def memory (image : Image) : Memory :=
  ⟨image.bytes.toArray, by simp [bytes_length]⟩

/-- The loaded memory is the program followed by zeros. -/
@[simp] theorem memory_toList (image : Image) : image.memory.toList = image.bytes := by
  simp [memory, Vector.toList]

/-- An image is built from its own program. -/
theorem ofBytes_program (image : Image) : ofBytes image.program = .ok image := by
  simp [ofBytes, image.fits]

/-- A list of bytes has an image exactly when it fits, and the image holds the list. -/
theorem ofBytes_eq_ok_iff {bytes : List UInt8} {image : Image} :
    ofBytes bytes = .ok image ↔ image.program = bytes := by
  constructor
  · intro h
    unfold ofBytes at h
    split at h
    · cases h
      rfl
    · cases h
  · rintro rfl
    exact ofBytes_program image

/-- A list of bytes is refused exactly when it is longer than the memory. -/
theorem ofBytes_eq_error_iff {bytes : List UInt8} {error : LoadError} :
    ofBytes bytes = .error error ↔
      error = .programTooLarge bytes.length ∧ memorySize < bytes.length := by
  unfold ofBytes
  split
  · simp
    omega
  · simp [eq_comm]
    omega

end Image

end ByteMachine
