/-
What can go wrong while a program runs.
-/
import Lox.Value

namespace Lox

/-- Why an operation has no result. -/
inductive RuntimeFault where
  | notNumber (found : Value)
  | notString (found : Value)
  | notNumberOrString (found : Value)
  | divisionByZero
  | undefined (name : String)
  | wrongArity (expected given : Nat)
  | notCallable (found : Value)
  /-- An environment has fewer scopes around it. -/
  | depthBeyondChain (depth : Nat)
  | unknownOperator (name : String)

/-- The wording of a fault. -/
def RuntimeFault.message : RuntimeFault → String
  | notNumber found => "Expected number, found " ++ found.quoted
  | notString found => "Expected string, found " ++ found.quoted
  | notNumberOrString found =>
      "Expected number or string, found " ++ found.quoted
  | divisionByZero => "Division by zero"
  | undefined name => "Undefined variable '" ++ name ++ "'"
  | wrongArity expected given =>
      s!"Function expects {expected} args; got {given}"
  | notCallable found =>
      "Attempted to call uncallable value " ++ found.quoted
  | depthBeyondChain depth =>
      s!"Scope depth {depth} exceeds the environment chain"
  | unknownOperator name => "Unknown operator " ++ name

/-- A fault, and the node that met it, if one did. -/
structure RuntimeError where
  fault : RuntimeFault
  node : Option Node

/-- The place of the node that met the fault. -/
def RuntimeError.pos (e : RuntimeError) : Option Position :=
  e.node.map Node.pos

/-- The full text of the diagnostic. -/
def RuntimeError.message (e : RuntimeError) : String :=
  e.fault.message ++ (e.pos.map Position.suffix).getD ""

end Lox
