import ByteMachine.CommandLine.Arguments

/-!
# The command at a console

The outer layer of the command: names of levels and filters, the usual form of a journal entry, and
the answers to arguments that ask for no program to be run.
-/

namespace ByteMachine

/-- Name of a level, right-aligned in five columns. -/
def Level.label : Level → String
  | .error => "ERROR"
  | .warn => " WARN"
  | .info => " INFO"
  | .debug => "DEBUG"
  | .trace => "TRACE"

namespace Event

/-- Component that reports an event. -/
def source : Event → String
  | .fileParsed .. => "ls8_vm::loader"
  | _ => "ls8_vm::vm"

/-- Entry of an event without the time: one line, unless a value in it holds line ends. -/
def render (event : Event) : String :=
  event.level.label ++ " " ++ event.source ++ ": " ++ event.message ++ "\n"

end Event

namespace Filter

/-- The filter with a name. -/
def ofName? (name : String) : Option Filter :=
  [("off", off), ("error", upTo .error), ("warn", upTo .warn), ("info", upTo .info),
   ("debug", upTo .debug), ("trace", upTo .trace)].lookup name

end Filter

namespace CommandLine

open Text (unlines)

/-- Text of the version option. -/
def versionText : String :=
  unlines ["ls8 0.1.0"]

/-- Text of the help option. -/
def helpText : String :=
  unlines
    ["LS-8 virtual machine",
     "",
     "Usage: ls8 [OPTIONS] <PROGRAM>",
     "",
     "Arguments:",
     "  <PROGRAM>  Program file: one 8-digit binary byte per line, `#` starts a comment",
     "",
     "Options:",
     "      --trace           Log a register trace line before every instruction",
     "      --allow-revisits  Keep running when execution returns to an earlier jump origin",
     "      --max-steps <N>   Abort after this many instructions",
     "  -v, --verbose         Log at debug level unless RUST_LOG says otherwise",
     "  -h, --help            Print help",
     "  -V, --version         Print version"]

/-- Response when no program is run. -/
def dismiss : Dismissal → Response
  | .help => ⟨0, helpText, ""⟩
  | .version => ⟨0, versionText, ""⟩
  | .misuse misuse => ⟨2, "", unlines ["error: " ++ misuse.message]⟩

/-- Respond to a command, given the journal setting and a way to read files. -/
def respond (arguments : List String) (setting : Option Filter)
    (read : String → Except ReadError ByteArray) : Option Response :=
  match parse arguments with
  | .error dismissal => some (dismiss dismissal)
  | .ok invocation =>
    execute (fun _ => Event.render) invocation setting (read invocation.program)

end CommandLine

end ByteMachine
