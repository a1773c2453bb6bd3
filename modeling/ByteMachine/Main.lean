import ByteMachine.CommandLine.Console

/-!
# The program

Reads the arguments, the journal setting and the program file, and prints the response.
-/

namespace ByteMachine

/-- The cause behind an error number of the system. Some numbers come with a minus sign, which a
32-bit word shows as its complement. -/
def systemError (code : UInt32) (details : String) : ReadError :=
  let number := min code.toNat (4294967296 - code.toNat)
  match number with
  | 2 => .notFound
  | 20 => .notDirectory
  | 21 => .isDirectory
  | 36 => .nameTooLong
  | _ => .other (details.capitalize ++ " (os error " ++ Text.decimal number ++ ")")

/-- Why the system refused to give the contents of a file. -/
def readError : IO.Error → ReadError
  | .noFileOrDirectory _ code details => systemError code details
  | .inappropriateType _ code details => systemError code details
  | .invalidArgument _ code details => systemError code details
  | .permissionDenied _ code details => systemError code details
  | .resourceExhausted _ code details => systemError code details
  | .illegalOperation code details => systemError code details
  | .otherError code details => systemError code details
  | error => .other (toString error)

/-- Contents of the file at a path. -/
def readFile (path : String) : IO (Except ReadError ByteArray) := do
  try
    let contents ← IO.FS.readBinFile path
    return .ok contents
  catch error =>
    return .error (readError error)

/-- Contents of the program file that the arguments name, if they name one. -/
def readProgram (arguments : List String) : IO (Except ReadError ByteArray) :=
  match CommandLine.parse arguments with
  | .ok invocation => readFile invocation.program
  | .error _ => return .error .notFound

end ByteMachine

open ByteMachine in
/-- Run the command and exit with its status. -/
def main (arguments : List String) : IO UInt32 := do
  let setting ← IO.getEnv "RUST_LOG"
  let contents ← readProgram arguments
  match CommandLine.respond arguments (setting.bind Filter.ofName?) fun _ => contents with
  | none => return 1
  | some response =>
    IO.print response.output
    IO.eprint response.diagnostics
    return response.exit.toUInt32
