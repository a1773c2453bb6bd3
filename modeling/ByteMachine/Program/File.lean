import ByteMachine.Journal
import ByteMachine.Program.Source

/-!
# Program files

A program file is a text in UTF-8. Its bytes are checked before any line is looked at, so a file
that is no text is refused as such whatever its lines say. Loading a file is reported when it
yields a program, and only then.
-/

namespace ByteMachine

/-- An image read from a file, or the reason why there is none, with the events on the way. -/
structure Loaded where
  result : Except LoadError Image
  events : List Event

namespace ProgramFile

/-- The text that bytes are the UTF-8 form of. -/
def decode (bytes : ByteArray) : Except ReadError String :=
  match String.fromUTF8? bytes with
  | some text => .ok text
  | none => .error .invalidUtf8

/-- The image that file contents describe. -/
def parse (path : String) (contents : Except ReadError ByteArray) : Except LoadError Image :=
  match contents.bind decode with
  | .ok text => Source.parse text
  | .error cause => .error (.unreadable path cause)

/-- Load the file at a path, given its contents. -/
def load (path : String) (contents : Except ReadError ByteArray) : Loaded :=
  match parse path contents with
  | .ok image => ⟨.ok image, [.fileParsed path image.size]⟩
  | .error error => ⟨.error error, []⟩

/-- The UTF-8 form of a text is read as that text. -/
theorem decode_toUTF8 (text : String) : decode text.toUTF8 = .ok text := by
  simp [decode, String.fromUTF8?, String.toUTF8, text.isValidUTF8, String.fromUTF8]

/-- Bytes are read as a text exactly when they are its UTF-8 form. -/
theorem decode_eq_ok_iff {bytes : ByteArray} {text : String} :
    decode bytes = .ok text ↔ bytes = text.toUTF8 := by
  constructor
  · intro h
    unfold decode String.fromUTF8? at h
    split at h
    · rename_i found hfound
      split at hfound
      · cases hfound
        cases h
        rfl
      · cases hfound
    · cases h
  · rintro rfl
    exact decode_toUTF8 text

/-- A readable text is parsed like any other. -/
theorem parse_toUTF8 (path text : String) :
    parse path (.ok text.toUTF8) = Source.parse text := by
  have h : (Except.ok text.toUTF8 : Except ReadError ByteArray).bind decode = .ok text :=
    decode_toUTF8 text
  rw [parse, h]

end ProgramFile

end ByteMachine
