/-
Why a unit of a session did not run to its end, and what is reported of
it. A rejected text reports all its errors, a run the one that ended it.
-/
import Lox.Program
import Lox.Binding
import Lox.Run.Machine

namespace Lox

/-- Why a unit did not run to its end. -/
inductive Failure where
  | text (error : TextError)
  | binding (errors : Diagnostics BindingError)
  | runtime (error : RuntimeError)
  | stackOverflow
  | unfinished
  | strayReturn (value : Value)

/-- The failure that an interruption of the run amounts to. -/
def Failure.ofInterruption : Interruption → Failure
  | .fault fault node => .runtime ⟨fault, node⟩
  | .stackOverflow => .stackOverflow
  | .unfinished => .unfinished
  | .strayReturn value => .strayReturn value

/-- The wording of a text's errors. -/
def TextError.messages : TextError → List String
  | scan e => [e.message]
  | syntactic errors => errors.toList.map SyntaxError.message

/-- The wording of a failure, a line for each error. -/
def Failure.messages : Failure → List String
  | text e => e.messages
  | binding errors => errors.toList.map BindingError.message
  | runtime e => [e.message]
  | stackOverflow => ["Stack overflow"]
  | unfinished => ["Loop bound exceeded"]
  | strayReturn value =>
      ["return escaped to top level with " ++ value.quoted]

/-- Whether the failure came while the unit ran, and not before. -/
def Failure.whileRunning : Failure → Bool
  | runtime _ | stackOverflow | unfinished => true
  | text _ | binding _ | strayReturn _ => false

/-- Whether the program itself is at fault, and not the machine. -/
def Failure.blamesProgram : Failure → Bool
  | strayReturn _ => false
  | _ => true

end Lox
