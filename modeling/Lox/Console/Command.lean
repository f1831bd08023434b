/-
The commands of the console. A command starts with a slash, and what
follows the first word is its argument. While a word is being typed, the
commands that it begins are offered.
-/
import Lox.Text.Blank

namespace Lox.Console

/-- A command of the console. -/
inductive Command where
  | clear
  | traceback
  | reset
deriving Repr, DecidableEq

namespace Command

/-- The commands, in the order in which they are offered. -/
def all : List Command := [clear, traceback, reset]

/-- How a command is typed. -/
def name : Command → String
  | clear => "/clear"
  | traceback => "/py-traceback"
  | reset => "/reset"

/-- What is said of a command where it is offered. -/
def description : Command → String
  | clear => "Clear the terminal screen"
  | traceback => "Toggle Python traceback on errors"
  | reset => "Reset the REPL environment"

/-- The command of a name. -/
def ofName? (name : String) : Option Command :=
  all.find? (·.name == name)

end Command

/-- The first word of a command line and its argument, or nothing if the
line is no command. -/
def splitCommand? (cs : List Char) : Option (String × String) :=
  let line := Text.trim cs
  if line.head? = some '/' then
    let (word, argument) := Text.cutWord line
    some (String.ofList word, String.ofList argument)
  else none

/-- What the argument of a switch asks for. -/
inductive Switch where
  | on
  | off
  | toggle
deriving Repr, DecidableEq

/-- The words that turn a switch on, in any case. -/
def onWords : List String := ["on", "1", "true", "yes"]

/-- The words that turn a switch off, in any case. -/
def offWords : List String := ["off", "0", "false", "no"]

/-- What an argument asks for, if it makes sense. -/
def Switch.ofArgument? (argument : String) : Option Switch :=
  let word := argument.toLower
  if word ∈ onWords then some on
  else if word ∈ offWords then some off
  else if argument = "" then some toggle
  else none

/-- A switch after it was set. -/
def Switch.apply (s : Switch) (state : Bool) : Bool :=
  match s with
  | on => true
  | off => false
  | toggle => !state

-- ============================================================ completion

/-- A command that is offered in place of what was typed. -/
structure Offer where
  command : Command
  /-- How many characters it takes the place of. -/
  replaced : Nat
deriving Repr, DecidableEq

/-- The commands that a text begins. -/
def offers (text : String) : List Offer :=
  if text.startsWith "/" then
    (Command.all.filter (·.name.startsWith text)).map (⟨·, text.length⟩)
  else []

end Lox.Console
