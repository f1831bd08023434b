/-
The program itself: it fetches what the command line and the console
ask for from the system, and writes what they answer.
-/
import Lox.Console
import Lox.Console.Key

namespace Lox.Main

/-- The number of an error of the system, which some calls negate. -/
def errorNumber (code : UInt32) : UInt32 := min code (0 - code)

/-- The fault behind an error of the system: 20 is a path through a
file, 21 a directory. -/
def readFault (e : IO.Error) : ReadFault :=
  match e with
  | .noFileOrDirectory _ _ _ => .noSuchFile
  | .inappropriateType _ code _ =>
    if errorNumber code = 20 then .notDirectory
    else if errorNumber code = 21 then .isDirectory
    else .other e.toString
  | _ => .other e.toString

/-- The path as the system gets it. -/
def systemPath (path : String) : String :=
  let names := "/".intercalate (FileTree.pathNames path)
  if path.startsWith "/" then "/" ++ names
  else if names = "" then "." else names

/-- The bytes of a file. -/
def readFile (path : String) : IO (Except ReadFault ByteArray) := do
  try
    return .ok (← IO.FS.readBinFile (systemPath path))
  catch e =>
    return .error (readFault e)

/-- All that is left of an input. -/
partial def readRest (input : IO.FS.Stream) (got : ByteArray) :
    IO ByteArray := do
  let more ← input.read 65536
  if more.isEmpty then return got else readRest input (got ++ more)

/-- Fetches the script of an argument, if there is exactly one. -/
def fetch (args : List String) : IO Sources := do
  let nothing : Sources := ⟨.empty, fun _ => .error .noSuchFile⟩
  match args with
  | ["-"] => return { nothing with
      standardInput := ← readRest (← IO.getStdin) .empty }
  | [arg] =>
    let content ← readFile arg
    return { nothing with file := fun _ => content }
  | _ => return nothing

/-- Does to the screen what the console says. -/
def perform (effects : List Console.Effect) : IO Unit := do
  for effect in effects do
    match effect with
    | .out text => IO.print text
    | .err text => IO.eprint text
    | .clearScreen => IO.print "\x1b[2J\x1b[H"
  (← IO.getStdout).flush

/-- Types one input, line by line as long as it wants to go on. -/
partial def typed (input : IO.FS.Stream) (before : String) :
    IO (Option String) := do
  IO.print (if before = "" then ">>> " else "... ")
  (← IO.getStdout).flush
  let line ← input.getLine
  if line = "" then
    return if before = "" then none else some before
  let text := before ++ (line.dropEndWhile (· == '\n')).copy
  let entered := Console.enter text
  if entered.edits = [.submit] then return some text
  else typed input entered.text

/-- Feeds the console until the input ends. -/
partial def converse (input : IO.FS.Stream) (console : Console) :
    IO Unit := do
  match ← typed input "" with
  | none => perform Console.farewell
  | some text =>
    let (console, effects) := console.step (.text text)
    perform effects
    converse input console

/-- Runs a script, or opens the console. -/
def run (args : List String) : IO UInt32 := do
  let now := (← IO.monoMsNow).toFloat / 1000
  let setting ← IO.getEnv "LOX_DEBUG_PY_TRACE"
  match CommandLine.run (.start now []) (← fetch args) args setting with
  | .exit code out err =>
    IO.print out
    IO.eprint err
    return code.toUInt32
  | .undecodable =>
    IO.eprintln "Error: the script is not UTF-8"
    return 1
  | .interactive =>
    perform Console.banner
    converse (← IO.getStdin) (.start now [] setting)
    return 0

end Lox.Main

/-- The command. -/
def main (args : List String) : IO UInt32 := Lox.Main.run args
