/-
Reading expressions. The operators between two operands stand on six
levels, the loosest first; on each they group to the left. Looser than
all is assignment, which groups to the right; tighter are the operators
before an operand, then calls, then literals, names and parentheses.

A node is numbered when it is complete, so it has a greater identity
than all its parts. Every reader takes a budget of nested steps and
hands on one less.
-/
import Lox.Tree.Cursor

namespace Lox

-- =============================================================== levels

/-- The levels of the operators between two operands. -/
inductive Level where
  | or
  | and
  | equality
  | comparison
  | term
  | factor
deriving Repr, DecidableEq

/-- An operator between two operands. -/
inductive Connective where
  | logical (op : LogicalOp)
  | binary (op : BinaryOp)
deriving Repr, DecidableEq

namespace Level

/-- The next tighter level. -/
def tighter? : Level → Option Level
  | or => some and
  | and => some equality
  | equality => some comparison
  | comparison => some term
  | term => some factor
  | factor => none

/-- The operator of this level that a token spells. -/
def connective? : Level → TokenKind → Option Connective
  | or, .kwOr => some (.logical .or)
  | and, .kwAnd => some (.logical .and)
  | equality, .equalEqual => some (.binary .equal)
  | equality, .bangEqual => some (.binary .notEqual)
  | comparison, .greater => some (.binary .greater)
  | comparison, .greaterEqual => some (.binary .greaterEqual)
  | comparison, .less => some (.binary .less)
  | comparison, .lessEqual => some (.binary .lessEqual)
  | term, .minus => some (.binary .subtract)
  | term, .plus => some (.binary .add)
  | factor, .slash => some (.binary .divide)
  | factor, .star => some (.binary .multiply)
  | _, _ => none

end Level

/-- The expression that joins two operands. -/
def Connective.join (c : Connective) (node : Node) (left right : Expr) :
    Expr :=
  match c with
  | .logical op => .logical node op left right
  | .binary op => .binary node op left right

/-- The operator before an operand that a token spells. -/
def UnaryOp.ofKind? : TokenKind → Option UnaryOp
  | .bang => some .not
  | .minus => some .negate
  | _ => none

/-- The literal that a token spells. -/
def Literal.ofToken? (t : Token) : Option Literal :=
  match t.kind with
  | .number => some (.number t.lexeme)
  | .string => some (.string t.contents)
  | .kwTrue => some (.bool true)
  | .kwFalse => some (.bool false)
  | .kwNil => some .nil
  | _ => none

-- ============================================================== readers

namespace Reader

mutual

/-- An assignment, or an expression of the loosest level. The left side
is read as an expression and looked at only behind the value. -/
def expression : Nat → Reader Expr
  | 0 => throw .exhausted
  | budget + 1 => do
    let first ← current
    let left ← joined budget .or
    if (← kind) = .equal then
      let sign ← take
      let value ← expression budget
      match left with
      | .var _ name => return .assign (← node first.pos) name value
      | _ => refuse .invalidTarget sign.pos
    else
      return left

/-- Operands of a level with its operators between them. -/
def joined : Nat → Level → Reader Expr
  | 0, _ => throw .exhausted
  | budget + 1, level => do
    let left ← operand budget level
    joinedMore budget level left

/-- What goes on after an operand of a level. -/
def joinedMore : Nat → Level → Expr → Reader Expr
  | 0, _, _ => throw .exhausted
  | budget + 1, level, left => do
    match level.connective? (← kind) with
    | none => return left
    | some op =>
      let sign ← take
      let right ← operand budget level
      joinedMore budget level (op.join (← node sign.pos) left right)

/-- One operand of a level. -/
def operand : Nat → Level → Reader Expr
  | 0, _ => throw .exhausted
  | budget + 1, level =>
    match level.tighter? with
    | some tighter => joined budget tighter
    | none => unary budget

/-- Operators before an operand, or a call. -/
def unary : Nat → Reader Expr
  | 0 => throw .exhausted
  | budget + 1 => do
    match UnaryOp.ofKind? (← kind) with
    | none => called budget
    | some op =>
      let sign ← take
      let inner ← unary budget
      return .unary (← node sign.pos) op inner

/-- A primary expression with any number of argument lists. -/
def called : Nat → Reader Expr
  | 0 => throw .exhausted
  | budget + 1 => do
    let callee ← primary budget
    calledMore budget callee

/-- The argument lists behind a callee. -/
def calledMore : Nat → Expr → Reader Expr
  | 0, _ => throw .exhausted
  | budget + 1, callee => do
    if (← kind) = .leftParen then
      let opening ← take
      let args ←
        if (← kind) = .rightParen then pure [] else arguments budget
      let _ ← expect .rightParen (.noClosing .arguments)
      let list ← node opening.pos
      calledMore budget (.call (← node opening.pos) list.id callee args)
    else
      return callee

/-- One argument or several, with commas between them. -/
def arguments : Nat → Reader (List Expr)
  | 0 => throw .exhausted
  | budget + 1 => do
    let first ← expression budget
    if ← takeIf .comma then
      return first :: (← arguments budget)
    else
      return [first]

/-- A literal, a name or an expression in parentheses. -/
def primary : Nat → Reader Expr
  | 0 => throw .exhausted
  | budget + 1 => do
    let t ← current
    match Literal.ofToken? t with
    | some value =>
      let _ ← take
      return .literal (← node t.pos) value
    | none =>
      match t.kind with
      | .identifier =>
        let _ ← take
        return .var (← node t.pos) t.lexeme
      | .leftParen =>
        let _ ← take
        let inner ← expression budget
        if ← takeIf .rightParen then
          return .group (← node t.pos) inner
        else
          refuse (.openGroup t.pos) (← current).pos
      | found => refuse (.noExpression found) t.pos

end

end Reader

end Lox
