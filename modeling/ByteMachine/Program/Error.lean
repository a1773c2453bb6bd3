import ByteMachine.Memory

/-!
# Load errors

Why a program could not be loaded: its text is malformed, it is too long, or its file could not be
read. Causes of the last kind are those of a file system, worded the way the system words them.
-/

namespace ByteMachine

/-- Why a file could not be read as text: its path is not one, leads nowhere, leads through a file
or to a directory or is too long, or its contents are not in UTF-8. Any other refusal is kept in the
words of the system. -/
inductive ReadError where
  | zeroInPath
  | notFound
  | notDirectory
  | isDirectory
  | nameTooLong
  | invalidUtf8
  | other (description : String)
  deriving DecidableEq, Repr

namespace ReadError

/-- Wording of a failed read. -/
def message : ReadError → String
  | .zeroInPath => "file name contained an unexpected NUL byte"
  | .notFound => "No such file or directory (os error 2)"
  | .notDirectory => "Not a directory (os error 20)"
  | .isDirectory => "Is a directory (os error 21)"
  | .nameTooLong => "File name too long (os error 36)"
  | .invalidUtf8 => "stream did not contain valid UTF-8"
  | .other description => description

end ReadError

/-- Why there is no program to run: a line, counted from one, that holds something other than eight
binary digits, more bytes than the memory holds, or a file that could not be read. -/
inductive LoadError where
  | malformedLine (number : Nat) (text : String)
  | programTooLarge (size : Nat)
  | unreadable (path : String) (cause : ReadError)
  deriving DecidableEq, Repr

namespace LoadError

open Text in
/-- Wording of a load error. -/
def message : LoadError → String
  | .malformedLine number text =>
    "line " ++ decimal number ++ ": expected 8 binary digits, found '" ++ text ++ "'"
  | .programTooLarge size =>
    "program has " ++ decimal size ++ " bytes but memory holds " ++ decimal memorySize
  | .unreadable path cause => "cannot read '" ++ path ++ "': " ++ cause.message

end LoadError

end ByteMachine
