/-
What the operators compute. Arithmetic follows the rules of doubles,
except that a quotient by nought is a fault. Both operands are there
before either is looked at, and the left one is looked at first.
-/
import Lox.Run.Fault

namespace Lox

namespace Value

/-- The number that a value is. -/
def toNumber : Value → Except RuntimeFault Float
  | number x => .ok x
  | v => .error (.notNumber v)

/-- A number computed from two numbers. -/
def arithmetic (f : Float → Float → Float) (a b : Value) :
    Except RuntimeFault Value :=
  return .number (f (← a.toNumber) (← b.toNumber))

/-- A truth value computed from two numbers. -/
def comparison (r : Float → Float → Bool) (a b : Value) :
    Except RuntimeFault Value :=
  return .bool (r (← a.toNumber) (← b.toNumber))

/-- The sum of numbers or the concatenation of strings. The left operand
decides what the right one should be. -/
def sum : Value → Value → Except RuntimeFault Value
  | number a, number b => .ok (.number (a + b))
  | string a, string b => .ok (.string (a ++ b))
  | number _, b => .error (.notNumber b)
  | string _, b => .error (.notString b)
  | a, _ => .error (.notNumberOrString a)

/-- The quotient of two numbers; the divisor must not be nought, of
either sign. -/
def quotient (a b : Value) : Except RuntimeFault Value := do
  let dividend ← a.toNumber
  let divisor ← b.toNumber
  if divisor == 0 then .error .divisionByZero
  else return .number (dividend / divisor)

end Value

/-- What an operator before an operand computes. -/
def UnaryOp.apply : UnaryOp → Value → Except RuntimeFault Value
  | negate, v => return .number (-(← v.toNumber))
  | not, v => return .bool (!v.truthy)

/-- What an operator between two operands computes. -/
def BinaryOp.apply : BinaryOp → Value → Value → Except RuntimeFault Value
  | add => Value.sum
  | subtract => Value.arithmetic (· - ·)
  | multiply => Value.arithmetic (· * ·)
  | divide => Value.quotient
  | equal => fun a b => .ok (.bool (a.equals b))
  | notEqual => fun a b => .ok (.bool (!a.equals b))
  | greater => Value.comparison fun x y => decide (x > y)
  | greaterEqual => Value.comparison fun x y => decide (x ≥ y)
  | less => Value.comparison fun x y => decide (x < y)
  | lessEqual => Value.comparison fun x y => decide (x ≤ y)

/-- The operators between two operands. -/
def BinaryOp.all : List BinaryOp :=
  [add, subtract, multiply, divide, equal, notEqual, greater,
    greaterEqual, less, lessEqual]

/-- What the operator of a name computes, the name being that of its
token. -/
def applyNamed (name : String) (a b : Value) : Except RuntimeFault Value :=
  match BinaryOp.all.find? (·.kind.name == name) with
  | some op => op.apply a b
  | none => .error (.unknownOperator name)

end Lox
