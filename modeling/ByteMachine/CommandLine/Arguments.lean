import ByteMachine.CommandLine.Pipeline

/-!
# Command-line arguments

Arguments are taken from left to right. The first one that asks for help or for the version, or
that is misused, settles the matter, whatever follows it. Only when all of them are in order is
the program's path asked for.
-/

namespace ByteMachine.CommandLine

/-- Options that are on or off. Each may be given once. -/
inductive Flag where
  | trace
  | allowRevisits
  | verbose
  deriving DecidableEq, Repr

/-- Options without a value. -/
inductive Switch where
  | flag (flag : Flag)
  | help
  | version
  deriving DecidableEq, Repr

namespace Switch

/-- The switch with a long name. -/
def ofLong? (name : String) : Option Switch :=
  [("trace", .flag .trace), ("allow-revisits", .flag .allowRevisits),
   ("verbose", .flag .verbose), ("help", help), ("version", version)].lookup name

/-- The switch with a one-letter name. -/
def ofShort? (letter : Char) : Option Switch :=
  [('v', .flag .verbose), ('h', help), ('V', version)].lookup letter

end Switch

/-- What is wrong with the arguments. -/
inductive Misuse where
  | unknownOption (argument : String)
  | repeatedOption (argument : String)
  | unexpectedValue (argument : String)
  | missingValue (argument : String)
  | invalidLimit (text : String)
  | missingProgram
  | emptyProgram
  | extraProgram (argument : String)
  deriving DecidableEq, Repr

namespace Misuse

/-- Wording of a misuse. -/
def message : Misuse → String
  | .unknownOption argument => "unexpected argument '" ++ argument ++ "'"
  | .repeatedOption argument => "'" ++ argument ++ "' cannot be used twice"
  | .unexpectedValue argument => "'" ++ argument ++ "' takes no value"
  | .missingValue argument => "'" ++ argument ++ "' needs a value"
  | .invalidLimit text => "'" ++ text ++ "' is not a number of instructions"
  | .missingProgram => "no program was given"
  | .emptyProgram => "the path of the program is empty"
  | .extraProgram argument => "unexpected second program '" ++ argument ++ "'"

end Misuse

/-- Why the arguments ask for no program to be run. -/
inductive Dismissal where
  | help
  | version
  | misuse (misuse : Misuse)
  deriving DecidableEq, Repr

/-- What the arguments so far say: the program and the limit once they were given, and the flags. -/
structure Draft where
  program : Option String := none
  flags : List Flag := []
  maxSteps : Option Nat := none
  deriving DecidableEq, Repr

/-- The largest limit that can be asked for, the largest number of 64 bits. -/
def largestLimit : Nat := 18446744073709551615

/-- A number's text without the plus sign in front. -/
def withoutSign : List Char → List Char
  | '+' :: rest => rest
  | text => text

/-- Read a limit: decimal digits, at least one, perhaps behind a plus sign. -/
def readLimit? (text : String) : Option Nat :=
  let digits := withoutSign text.toList
  let limit := Nat.ofDigitChars 10 digits 0
  if digits ≠ [] ∧ digits.all Char.isDigit ∧ limit ≤ largestLimit then some limit else none

namespace Draft

/-- Name of the one option that takes a value. -/
def limitName : String := "max-steps"

/-- Take a switch, written as `argument`. -/
def takeSwitch (draft : Draft) (argument : String) : Switch → Except Dismissal Draft
  | .help => .error .help
  | .version => .error .version
  | .flag flag =>
    if flag ∈ draft.flags then .error (.misuse (.repeatedOption argument))
    else .ok { draft with flags := flag :: draft.flags }

/-- Take the text of a limit. -/
def takeLimit (draft : Draft) (text : String) : Except Dismissal Draft :=
  if draft.maxSteps.isSome then .error (.misuse (.repeatedOption ("--" ++ limitName)))
  else match readLimit? text with
    | some limit => .ok { draft with maxSteps := some limit }
    | none => .error (.misuse (.invalidLimit text))

/-- Take the path of a program. -/
def takeProgram (draft : Draft) (path : String) : Except Dismissal Draft :=
  if draft.program.isSome then .error (.misuse (.extraProgram path))
  else if path = "" then .error (.misuse .emptyProgram)
  else .ok { draft with program := some path }

/-- Take a row of one-letter switches, from left to right. -/
def takeLetters (draft : Draft) (letters : List Char) : Except Dismissal Draft :=
  letters.foldlM (fun draft letter =>
    let argument := "-" ++ letter.toString
    match Switch.ofShort? letter with
    | some switch => draft.takeSwitch argument switch
    | none => .error (.misuse (.unknownOption argument))) draft

/-- Take a long option: its name, with a value if an equals sign follows. -/
def takeLong (draft : Draft) (text : List Char) : Except Dismissal Draft :=
  let name := String.ofList (text.takeWhile (· != '='))
  let argument := "--" ++ name
  match text.dropWhile (· != '='), Switch.ofLong? name with
  | [], some switch => draft.takeSwitch argument switch
  | _ :: value, none =>
    if name = limitName then draft.takeLimit (String.ofList value)
    else .error (.misuse (.unknownOption argument))
  | [], none => .error (.misuse (.unknownOption argument))
  | _ :: _, some _ => .error (.misuse (.unexpectedValue argument))

/-- Take an argument that needs no look at the next one. A lone `-` is a path. -/
def takeArgument (draft : Draft) (argument : String) : Except Dismissal Draft :=
  match argument.toList with
  | '-' :: '-' :: text => draft.takeLong text
  | '-' :: letter :: letters => draft.takeLetters (letter :: letters)
  | _ => draft.takeProgram argument

/-- Take all arguments. Behind `--` each is a path, and a limit in an argument of its own must
not look like an option. -/
def takeAll (draft : Draft) : List String → Except Dismissal Draft
  | [] => .ok draft
  | "--" :: paths => paths.foldlM takeProgram draft
  | "--max-steps" :: [] => .error (.misuse (.missingValue "--max-steps"))
  | "--max-steps" :: value :: rest =>
    if value.startsWith "-" then .error (.misuse (.missingValue "--max-steps"))
    else do
      let draft ← draft.takeLimit value
      draft.takeAll rest
  | argument :: rest => do
    let draft ← draft.takeArgument argument
    draft.takeAll rest

/-- The invocation that a complete draft describes. -/
def finish (draft : Draft) : Except Dismissal Invocation :=
  match draft.program with
  | some program => .ok
    { program
      trace := .trace ∈ draft.flags
      allowRevisits := .allowRevisits ∈ draft.flags
      maxSteps := draft.maxSteps
      verbose := .verbose ∈ draft.flags }
  | none => .error (.misuse .missingProgram)

end Draft

/-- Read the arguments of the command line. -/
def parse (arguments : List String) : Except Dismissal Invocation := do
  let draft ← ({} : Draft).takeAll arguments
  draft.finish

end ByteMachine.CommandLine
