import ByteMachine.Program.Image
import ByteMachine.Text.Blank
import ByteMachine.Text.Lines

/-!
# Program text

A program is written one byte to a line, as eight binary digits. A `#` starts a comment, blanks
around the digits do not matter, and lines without digits are skipped. The first line that holds
anything else makes the whole text malformed; only when there is none does the number of bytes
count.
-/

namespace ByteMachine.Source

/-- The part of a line that counts: what stands before a comment, without blanks around it. -/
def payload (line : List Char) : List Char :=
  Text.trim (line.takeWhile (· != '#'))

/-- Whether a byte is the code of a binary digit. -/
def isBinaryDigit (byte : UInt8) : Bool :=
  byte == '0'.toUInt8 || byte == '1'.toUInt8

/-- Value of eight binary digits, most significant digit first; any other text has none. The length
is that of the UTF-8 form. -/
def readByte? (text : List Char) : Option UInt8 :=
  let bytes := text.flatMap String.utf8EncodeChar
  if bytes.length = 8 ∧ bytes.all isBinaryDigit then
    some (UInt8.ofNat (Nat.ofDigitChars 2 text 0))
  else none

/-- What a line contributes to a program: nothing, one byte, or something other than eight binary
digits. -/
inductive Content where
  | blank
  | byte (value : UInt8)
  | malformed (text : List Char)
  deriving DecidableEq, Repr

namespace Content

/-- Contents of a line. -/
def ofLine (line : List Char) : Content :=
  if payload line = [] then .blank
  else match readByte? (payload line) with
    | some value => .byte value
    | none => .malformed (payload line)

/-- The byte of a line that has one. -/
def byte? : Content → Option UInt8
  | .byte value => some value
  | _ => none

/-- The offending text of a line that has one. -/
def malformed? : Content → Option (List Char)
  | .malformed text => some text
  | _ => none

end Content

/-- Contents of all lines of a text. -/
def contents (text : List Char) : List Content :=
  (Text.lines text).map Content.ofLine

/-- The first malformed line, counted from one, with its text. -/
def firstMalformed? (contents : List Content) : Option (Nat × List Char) :=
  (contents.zipIdx 1).findSome? fun (content, number) =>
    content.malformed?.map fun text => (number, text)

/-- Read the characters of a program text. -/
def parseChars (text : List Char) : Except LoadError Image :=
  match firstMalformed? (contents text) with
  | some (number, found) => .error (.malformedLine number (String.ofList found))
  | none => Image.ofBytes ((contents text).filterMap Content.byte?)

/-- Read a program text. -/
def parse (text : String) : Except LoadError Image :=
  parseChars text.toList

end ByteMachine.Source
