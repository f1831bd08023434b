/-
Program trees. Every node of a tree carries an identity of its own and
the place that diagnostics about it show; two uses of one name are
different nodes, and only the identity tells them apart. Operators and
literals are data of the node that holds them, and the two groupings
that are nodes without a meaning of their own, the list of arguments
and the list of parameters, leave their identities in the call and in
the declaration.
-/
import Lox.Token

namespace Lox

-- =============================================================== leaves

/-- The identity and the place of a node. -/
structure Node where
  id : Nat
  pos : Position
deriving Repr, DecidableEq, Inhabited

/-- A declared name and where it stands. -/
structure Name where
  text : String
  pos : Position
deriving Repr, DecidableEq, Inhabited

/-- A literal. A number keeps its spelling. -/
inductive Literal where
  | number (spelling : String)
  | string (contents : String)
  | bool (value : Bool)
  | nil
deriving Repr, DecidableEq

/-- The operators before an operand. -/
inductive UnaryOp where
  | negate
  | not
deriving Repr, DecidableEq

/-- The operators that need the values of both operands. -/
inductive BinaryOp where
  | add
  | subtract
  | multiply
  | divide
  | equal
  | notEqual
  | greater
  | greaterEqual
  | less
  | lessEqual
deriving Repr, DecidableEq

/-- The operators that may do without their right operand. -/
inductive LogicalOp where
  | and
  | or
deriving Repr, DecidableEq

/-- The token that spells an operator. -/
def UnaryOp.kind : UnaryOp → TokenKind
  | negate => .minus
  | not => .bang

/-- The token that spells an operator. -/
def BinaryOp.kind : BinaryOp → TokenKind
  | add => .plus
  | subtract => .minus
  | multiply => .star
  | divide => .slash
  | equal => .equalEqual
  | notEqual => .bangEqual
  | greater => .greater
  | greaterEqual => .greaterEqual
  | less => .less
  | lessEqual => .lessEqual

/-- The token that spells an operator. -/
def LogicalOp.kind : LogicalOp → TokenKind
  | and => .kwAnd
  | or => .kwOr

/-- How an operator is spelled. -/
def UnaryOp.spelling : UnaryOp → String
  | negate => "-"
  | not => "!"

/-- How an operator is spelled. -/
def BinaryOp.spelling : BinaryOp → String
  | add => "+"
  | subtract => "-"
  | multiply => "*"
  | divide => "/"
  | equal => "=="
  | notEqual => "!="
  | greater => ">"
  | greaterEqual => ">="
  | less => "<"
  | lessEqual => "<="

/-- How an operator is spelled. -/
def LogicalOp.spelling : LogicalOp → String
  | and => "and"
  | or => "or"

/-- The kind of token that a literal is spelled with. -/
def Literal.kind : Literal → TokenKind
  | number _ => .number
  | string _ => .string
  | bool true => .kwTrue
  | bool false => .kwFalse
  | nil => .kwNil

/-- What a literal says: its spelling, or the contents of a string. -/
def Literal.text : Literal → String
  | number spelling => spelling
  | string contents => contents
  | bool true => "true"
  | bool false => "false"
  | nil => "nil"

-- ========================================================== expressions

/-- An expression. A name and its assignment stand at their node, a call
at its opening parenthesis, an operator at its token. -/
inductive Expr where
  | literal (node : Node) (value : Literal)
  | var (node : Node) (name : String)
  | assign (node : Node) (name : String) (value : Expr)
  | group (node : Node) (inner : Expr)
  | unary (node : Node) (op : UnaryOp) (operand : Expr)
  | binary (node : Node) (op : BinaryOp) (left right : Expr)
  | logical (node : Node) (op : LogicalOp) (left right : Expr)
  | call (node : Node) (argsId : Nat) (callee : Expr) (args : List Expr)

/-- The node at the top of an expression. -/
def Expr.node : Expr → Node
  | literal node _ | var node _ | assign node _ _ | group node _
  | unary node _ _ | binary node _ _ _ | logical node _ _ _
  | call node _ _ _ => node

-- =========================================================== statements

/-- A statement or a declaration. The body of a function is a list of
statements under a node of its own, not a block, since it shares the
scope of the parameters. -/
inductive Stmt where
  | expr (node : Node) (value : Expr)
  | print (node : Node) (value : Expr)
  | varDecl (node : Node) (name : Name) (init : Option Expr)
  | funDecl (node : Node) (name : Name) (paramsId : Nat)
      (params : List Name) (bodyNode : Node) (body : List Stmt)
  | block (node : Node) (body : List Stmt)
  | cond (node : Node) (test : Expr) (yes : Stmt) (no : Option Stmt)
  | loop (node : Node) (test : Expr) (body : Stmt)
  | ret (node : Node) (value : Option Expr)

/-- The node at the top of a statement. -/
def Stmt.node : Stmt → Node
  | expr node _ | print node _ | varDecl node _ _
  | funDecl node _ _ _ _ _ | block node _ | cond node _ _ _
  | loop node _ _ | ret node _ => node

end Lox
