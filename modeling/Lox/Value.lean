/-
Values. A function keeps the environment that it was declared in; an
environment is known by the scopes it consists of, the innermost first,
and the scopes themselves are kept in a store. Functions and natives are
told apart by a stamp that each gets when it is made, so two functions
made by one declaration are different values.
-/
import Lox.Native
import Lox.Number
import Lox.Tree

namespace Lox

-- ============================================================== the types

/-- An environment: its own scope and those around it, outwards. -/
structure Env where
  scope : Nat
  enclosing : List Nat
deriving Repr, DecidableEq

/-- The environment of the globals. -/
def Env.globals : Env := ⟨0, []⟩

/-- A function that a program declared. -/
structure Function where
  stamp : Nat
  name : String
  params : List String
  body : List Stmt
  /-- The environment of the declaration. -/
  closure : Env

/-- A function that the host provides. -/
structure Native where
  stamp : Nat
  name : String
  arity : Nat
  action : NativeAction

/-- A value. -/
inductive Value where
  | nil
  | bool (b : Bool)
  | number (x : Float)
  | string (s : String)
  | function (f : Function)
  | native (n : Native)

namespace Value

-- ================================================================== text

/-- A value as a diagnostic shows it: a string stands in quotes, and
nothing in it is escaped. -/
def quoted : Value → String
  | nil => "nil"
  | bool true => "true"
  | bool false => "false"
  | number x => Number.text x
  | string s => "\"" ++ s ++ "\""
  | function f => "<fn " ++ f.name ++ ">"
  | native n => "<native fn " ++ n.name ++ ">"

/-- A value as `print` writes it: a string without its quotes. -/
def printed : Value → String
  | string s => s
  | v => v.quoted

-- ====================================================== truth and equality

/-- Only `false` and `nil` are false. -/
def truthy : Value → Bool
  | nil => false
  | bool b => b
  | _ => true

/-- Equality of values. Values of different kinds are different, a NaN
is different from itself, and a function is equal to itself alone. -/
def equals : Value → Value → Bool
  | nil, nil => true
  | bool a, bool b => a == b
  | number a, number b => a == b
  | string a, string b => a == b
  | function f, function g => f.stamp == g.stamp
  | native m, native n => m.stamp == n.stamp
  | _, _ => false

/-- Whether a value can be called. -/
def callable : Value → Bool
  | function _ | native _ => true
  | _ => false

-- ================================================================ natives

/-- What a native sees of a value. -/
def sight : Value → Sight
  | nil => .plain .nil
  | bool b => .plain (.bool b)
  | number x => .plain (.number x)
  | string s => .plain (.string s)
  | function f =>
      .callable f.stamp (function f).quoted f.params.length
  | native n => .callable n.stamp (native n).quoted n.arity

end Value

/-- A value that cannot be called, as a value. -/
def Plain.value : Plain → Value
  | nil => .nil
  | bool b => .bool b
  | number x => .number x
  | string s => .string s

/-- The value that a native hands on, given those that it has in hand. At
a place where there is none it hands on nil. -/
def Handed.value (hand : List Value) : Handed → Value
  | own p => p.value
  | held place => hand.getD place .nil

/-- The value of a literal. -/
def Literal.value : Literal → Value
  | number spelling => .number (Number.ofLiteral spelling)
  | string contents => .string contents
  | bool b => .bool b
  | nil => .nil

end Lox
