/-
What can be wrong with the order of the tokens of a program. Each fault
says what was missing and where in the grammar; most also name the kind
of token that stood there instead.
-/
import Lox.Token

namespace Lox

/-- What a missing name would have named. -/
inductive NameRole where
  | function
  | parameter
  | binding
deriving Repr, DecidableEq

/-- Behind what an opening parenthesis is missing. -/
inductive OpeningRole where
  | functionName
  | ifWord
  | whileWord
  | forWord
deriving Repr, DecidableEq

/-- Behind what a closing parenthesis is missing. -/
inductive ClosingRole where
  | parameters
  | ifCondition
  | whileCondition
  | forClauses
  | arguments
deriving Repr, DecidableEq

/-- Behind what a semicolon is missing. -/
inductive EndRole where
  | variableDeclaration
  | loopCondition
  | printedValue
  | returnValue
  | expression
deriving Repr, DecidableEq

/-- The wording of a role. -/
def NameRole.phrase : NameRole → String
  | function => "function name"
  | parameter => "parameter name"
  | binding => "variable name"

/-- The wording of a role. -/
def OpeningRole.phrase : OpeningRole → String
  | functionName => "function name"
  | ifWord => "'if'"
  | whileWord => "'while'"
  | forWord => "'for'"

/-- The wording of a role. -/
def ClosingRole.phrase : ClosingRole → String
  | parameters => "parameters"
  | ifCondition => "if condition"
  | whileCondition => "while condition"
  | forClauses => "for clauses"
  | arguments => "arguments"

/-- The wording of a role. -/
def EndRole.phrase : EndRole → String
  | variableDeclaration => "variable declaration"
  | loopCondition => "loop condition"
  | printedValue => "value"
  | returnValue => "return value"
  | expression => "expression"

/-- Why the tokens are no program. `found` is the kind of the token at
which the fault was met. -/
inductive SyntaxFault where
  | noExpression (found : TokenKind)
  | noName (role : NameRole) (found : TokenKind)
  | noOpening (role : OpeningRole) (found : TokenKind)
  | noClosing (role : ClosingRole) (found : TokenKind)
  | noEnd (role : EndRole) (found : TokenKind)
  /-- A function without a body. -/
  | noBody (found : TokenKind)
  /-- The text ends inside a block. -/
  | openBlock
  /-- Nothing closes the parenthesis opened at `opened`. -/
  | openGroup (opened : Position)
  /-- The left side of an assignment is no name. -/
  | invalidTarget
deriving Repr, DecidableEq

/-- A message, and the kind of token that was met. -/
def SyntaxFault.met (message : String) (found : TokenKind) : String :=
  message ++ ", got " ++ found.name

/-- The wording of a fault. -/
def SyntaxFault.message : SyntaxFault → String
  | noExpression found => met "Expected expression" found
  | noName role found => met ("Expected " ++ role.phrase) found
  | noOpening role found => met ("Expected '(' after " ++ role.phrase) found
  | noClosing role found => met ("Expected ')' after " ++ role.phrase) found
  | noEnd role found => met ("Expected ';' after " ++ role.phrase) found
  | noBody found => met "Expected '\x7b' before function body" found
  | openBlock => "Expected '\x7d' after block"
  | openGroup opened =>
      "Expected ')' to close '(' at line " ++ toString opened.line
        ++ ", col " ++ toString opened.column
  | invalidTarget => "Invalid assignment target"

/-- A fault and the token at which it was met. -/
structure SyntaxError where
  fault : SyntaxFault
  pos : Position
deriving Repr, DecidableEq

/-- The full text of the diagnostic. -/
def SyntaxError.message (e : SyntaxError) : String :=
  e.fault.message ++ e.pos.suffix

end Lox
