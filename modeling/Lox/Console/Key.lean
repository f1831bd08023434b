/-
The keys that the console handles itself, on a text with the cursor at
its end. The return key goes on with a program that wants to go on and
else submits it; a command is always submitted. Rubbing out a character
offers the commands again if what is left begins like one.
-/
import Lox.Console.Continuation

namespace Lox.Console

/-- What a key does to the text. -/
inductive Edit where
  | insert
  | delete
  | complete
  | submit
deriving Repr, DecidableEq

/-- A text and what was done to it, in order. -/
structure Edited where
  text : String
  edits : List Edit
deriving Repr, DecidableEq

/-- Whether a text is meant for the console. -/
def looksLikeCommand (text : String) : Bool := text.startsWith "/"

/-- The return key. -/
def enter (text : String) : Edited :=
  if !looksLikeCommand text && wantsMore text then
    ⟨text ++ "\n", [.insert]⟩
  else ⟨text, [.submit]⟩

/-- The key that rubs out a character. -/
def backspace (text : String) : Edited :=
  let text := String.ofList text.toList.dropLast
  ⟨text, .delete :: if looksLikeCommand text then [.complete] else []⟩

end Lox.Console
