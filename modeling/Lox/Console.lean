/-
The console: a session that is fed by hand. Each input is freed of the
characters that cannot be seen; a blank one does nothing, one that
starts with a slash is a command, and any other is a unit of the
session. What goes wrong is written and the console goes on.
-/
import Lox.CommandLine
import Lox.Console.Command

namespace Lox

/-- What the console has at hand between two inputs. -/
structure Console where
  session : Session
  /-- The natives that a session starts with. -/
  natives : List NativeSpec
  /-- Whether the details of errors are asked for. -/
  traceback : Bool
  frames : Frames

namespace Console

/-- What comes from the keyboard. -/
inductive Input where
  | text (text : String)
  /-- The input was broken off. -/
  | interrupt
deriving Repr, DecidableEq

/-- What the console does to the screen. -/
inductive Effect where
  | out (text : String)
  | err (text : String)
  | clearScreen
deriving Repr, DecidableEq

/-- The console at its start, under a setting of the environment and with
what the host says of a failure. -/
def start (clock : Clock) (natives : List NativeSpec)
    (setting : Option String) (frames : Frames := fun _ _ => "") :
    Console :=
  ⟨.start clock natives, natives, asksForDetails setting, frames⟩

/-- What is written before the first input. -/
def banner : List Effect :=
  [.out "lox repl (Ctrl-D to exit, / for commands)\n"]

/-- What is written after the last input. -/
def farewell : List Effect := [.out "\n"]

-- ================================================================ inputs

/-- The characters that cannot be seen and are left out of an input:
joiners and spaces without width, the byte order mark, the space that
does not break, and the carriage return. -/
def isInvisible (c : Char) : Bool :=
  c == '\u200b' || c == '\u200c' || c == '\u200d' || c == '\ufeff'
    || c == '\u00a0' || c == '\r'

/-- An input without what cannot be seen. -/
def visible (text : String) : List Char :=
  text.toList.filter (!isInvisible ·)

/-- The details of what a unit fails with, if they are asked for. -/
def details (c : Console) (source : String) : Option String :=
  if c.traceback then some (c.frames c.session source) else none

/-- What is written of a report. -/
def written (report : Report) (details : Option String) : List Effect :=
  .out report.output :: (report.failure.map (.err <| ·.report details)).toList

/-- Obeys a command line. -/
def obey (c : Console) (word argument : String) : Console × List Effect :=
  match Command.ofName? word with
  | some .clear => (c, [.clearScreen])
  | some .traceback =>
    match Switch.ofArgument? argument with
    | none => (c, [.err "Usage: /py-traceback [on|off]\n"])
    | some switch =>
      let traceback := switch.apply c.traceback
      ({ c with traceback },
        [.out ("Python traceback: " ++ (if traceback then "on" else "off")
          ++ "\n")])
  | some .reset =>
    ({ c with session := .start c.session.machine.clock c.natives },
      [.out "Environment reset.\n"])
  | none => (c, [.err ("Unknown command: " ++ word ++ "\n")])

/-- Takes an input. -/
def step (c : Console) (input : Input) : Console × List Effect :=
  match input with
  | .interrupt => (c, [.out "KeyboardInterrupt\n"])
  | .text text =>
    let cs := visible text
    if cs.all Text.isBlank then (c, [])
    else
      match splitCommand? cs with
      | some (word, argument) => c.obey word argument
      | none =>
        let source := String.ofList cs
        let (session, report) := c.session.run source
        ({ c with session }, written report (c.details source))

end Console

end Lox
