/-
The command line. With no argument the console opens; with one the
script of that path is run, or what the standard input holds if the
argument is a dash; more are refused. The exit codes are those that
system programs use for a wrong usage, an internal error and a failure
to read.

If details are asked for, the report of a unit that failed while it ran
also says where in its own code the host was. What it says of that is up
to the host.
-/
import Lox.FileTree
import Lox.Session
import Lox.Text.Decode

namespace Lox

/-- Where a script can come from. -/
structure Sources where
  standardInput : ByteArray
  /-- The file under a path. -/
  file : String → Except ReadFault ByteArray

/-- How a command ends. -/
inductive Ending where
  /-- With an exit code, and what was written to both outputs. -/
  | exit (code : Nat) (out err : String)
  /-- It goes on as the console. -/
  | interactive
  /-- The bytes of the script are no text. -/
  | undecodable
deriving Repr, DecidableEq

namespace ExitCode

/-- The script ran to its end. -/
def ok : Nat := 0

/-- The arguments or the program are at fault. -/
def usage : Nat := 64

/-- The interpreter itself is at fault. -/
def internal : Nat := 70

/-- The script could not be read. -/
def unreadable : Nat := 74

end ExitCode

/-- What the host says of where it was when a unit failed, given the
session before the unit and its text. -/
abbrev Frames := Session → String → String

/-- Whether a setting of the environment asks for the details of errors:
one that is neither empty nor nought. -/
def asksForDetails (setting : Option String) : Bool :=
  decide (setting.getD "" ≠ "" ∧ setting ≠ some "0")

/-- What is written of a failure to the error output: a line for each
error, and the details of what failed while it ran, if there are any. -/
def Failure.report (f : Failure) (details : Option String) : String :=
  String.join (f.messages.map fun message => "Error: " ++ message ++ "\n")
    ++ if f.whileRunning then
      details.elim "" ("\nPython traceback:\n" ++ ·)
    else ""

namespace CommandLine

/-- The bytes of the script that an argument names. -/
def load (sources : Sources) (arg : String) : Except ReadFault ByteArray :=
  if arg = "-" then .ok sources.standardInput else sources.file arg

/-- Runs a script in a session of its own. -/
def runScript (session : Session) (source : String)
    (details : Option String) : Ending :=
  let (_, report) := session.run source
  match report.failure with
  | none => .exit ExitCode.ok report.output ""
  | some f =>
    if f.blamesProgram then
      .exit ExitCode.usage report.output (f.report details)
    else .exit ExitCode.internal report.output
      (String.join (f.messages.map fun message =>
        "Internal error: " ++ message ++ "\n"))

/-- What a command does, under a setting of the environment and with what
the host says of a failure. -/
def run (session : Session) (sources : Sources) (args : List String)
    (setting : Option String := none) (frames : Frames := fun _ _ => "") :
    Ending :=
  match args with
  | [] => .interactive
  | [arg] =>
    match load sources arg with
    | .error fault =>
        .exit ExitCode.unreadable ""
          ("Error: cannot read " ++ arg ++ ": " ++ fault.reason ++ "\n")
    | .ok bytes =>
      match Text.decode? bytes with
      | none => .undecodable
      | some source => runScript session source
          (if asksForDetails setting then some (frames session source)
          else none)
  | _ => .exit ExitCode.usage "" "Usage: lox-ref [script]\n"

end CommandLine

end Lox
