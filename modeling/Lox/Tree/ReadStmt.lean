/-
Reading statements and declarations. A `for` is not a tree of its own:
it is read into the blocks and the `while` that it stands for, all of
them placed at the word `for`. A declaration with a fault is given up
and its error recorded, also inside a block, so that one reading finds
every fault of a program.
-/
import Lox.Tree.ReadExpr

namespace Lox

namespace Reader

-- ===================================================== simple statements

/-- Takes the semicolon behind a statement. -/
def ending (role : EndRole) : Reader Token :=
  expect .semicolon (.noEnd role)

/-- A variable declaration. -/
def varDecl (budget : Nat) : Reader Stmt := do
  let word ← take
  let name ← expect .identifier (.noName .binding)
  let init ← if ← takeIf .equal then some <$> expression budget else pure none
  let _ ← ending .variableDeclaration
  return .varDecl (← node word.pos) ⟨name.lexeme, name.pos⟩ init

/-- An expression as a statement. -/
def exprStmt (budget : Nat) : Reader Stmt := do
  let first ← current
  let value ← expression budget
  let _ ← ending .expression
  return .expr (← node first.pos) value

/-- A print statement. -/
def printStmt (budget : Nat) : Reader Stmt := do
  let word ← take
  let value ← expression budget
  let _ ← ending .printedValue
  return .print (← node word.pos) value

/-- A return statement. -/
def retStmt (budget : Nat) : Reader Stmt := do
  let word ← take
  let value ←
    if (← kind) = .semicolon then pure none else some <$> expression budget
  let _ ← ending .returnValue
  return .ret (← node word.pos) value

/-- One parameter or several, with commas between them. -/
def parameters : Nat → Reader (List Name)
  | 0 => throw .exhausted
  | budget + 1 => do
    let first ← expect .identifier (.noName .parameter)
    let name : Name := ⟨first.lexeme, first.pos⟩
    if ← takeIf .comma then
      return name :: (← parameters budget)
    else
      return [name]

-- ======================================================= for, taken apart

/-- The first clause of a `for`. -/
def forInit (budget : Nat) : Reader (Option Stmt) := do
  if ← takeIf .semicolon then
    return none
  else if (← kind) = .kwVar then
    return some (← varDecl budget)
  else
    return some (← exprStmt budget)

/-- The second clause of a `for`. Without one the loop goes on for ever:
a literal at the semicolon says so. -/
def forTest (budget : Nat) : Reader Expr := do
  let t ← current
  if t.kind = .semicolon then
    return .literal (← node t.pos) (.bool true)
  else
    expression budget

/-- The third clause of a `for`. -/
def forStep (budget : Nat) : Reader (Option Expr) := do
  if (← kind) = .rightParen then
    return none
  else
    return some (← expression budget)

/-- The body of a `for` and, behind it, its third clause. -/
def forBody (pos : Position) (step : Option Expr) (body : Stmt) :
    Reader Stmt := do
  match step with
  | none => return body
  | some e =>
    let stepStmt := Stmt.expr (← node pos) e
    return .block (← node pos) [body, stepStmt]

/-- The `while` of a `for`, behind its first clause. -/
def forLoop (pos : Position) (init : Option Stmt) (test : Expr)
    (body : Stmt) : Reader Stmt := do
  let loop := Stmt.loop (← node pos) test body
  match init with
  | none => return loop
  | some first => return .block (← node pos) [first, loop]

-- =================================================== nested statements

/-- Where the statements of a block end. -/
def endsBlock (kind : TokenKind) : Bool :=
  kind == .rightBrace || kind == .endOfText

/-- Where the statements of a program end. -/
def endsProgram (kind : TokenKind) : Bool :=
  kind == .endOfText

mutual

/-- Declarations up to a token that ends them; those with a fault are
left out. -/
def declarations (ends : TokenKind → Bool) : Nat → Reader (List Stmt)
  | 0 => throw .exhausted
  | budget + 1 => do
    if ends (← kind) then
      return []
    else
      let first ← declaration budget
      let others ← declarations ends budget
      return first.toList ++ others

/-- One declaration, or none if it has a fault. -/
def declaration : Nat → Reader (Option Stmt)
  | 0 => throw .exhausted
  | budget + 1 => recovering do
    match ← kind with
    | .kwFun => funDecl budget
    | .kwVar => varDecl budget
    | _ => statement budget

/-- A function declaration. -/
def funDecl : Nat → Reader Stmt
  | 0 => throw .exhausted
  | budget + 1 => do
    let word ← take
    let name ← expect .identifier (.noName .function)
    let _ ← expect .leftParen (.noOpening .functionName)
    let params ←
      if (← kind) = .rightParen then pure [] else parameters budget
    let _ ← expect .rightParen (.noClosing .parameters)
    let opening ← current
    if opening.kind = .leftBrace then
      let (bodyNode, body) ← braced budget
      let list ← node name.pos
      return .funDecl (← node word.pos) ⟨name.lexeme, name.pos⟩ list.id
        params bodyNode body
    else
      refuse (.noBody opening.kind) opening.pos

/-- A statement that declares nothing. -/
def statement : Nat → Reader Stmt
  | 0 => throw .exhausted
  | budget + 1 => do
    match ← kind with
    | .kwFor => forStmt budget
    | .kwIf => condStmt budget
    | .kwPrint => printStmt budget
    | .kwReturn => retStmt budget
    | .kwWhile => loopStmt budget
    | .leftBrace =>
      let (node, body) ← braced budget
      return .block node body
    | _ => exprStmt budget

/-- A conditional. An `else` belongs to the nearest `if`. -/
def condStmt : Nat → Reader Stmt
  | 0 => throw .exhausted
  | budget + 1 => do
    let word ← take
    let _ ← expect .leftParen (.noOpening .ifWord)
    let test ← expression budget
    let _ ← expect .rightParen (.noClosing .ifCondition)
    let yes ← statement budget
    let no ← if ← takeIf .kwElse then some <$> statement budget else pure none
    return .cond (← node word.pos) test yes no

/-- A loop. -/
def loopStmt : Nat → Reader Stmt
  | 0 => throw .exhausted
  | budget + 1 => do
    let word ← take
    let _ ← expect .leftParen (.noOpening .whileWord)
    let test ← expression budget
    let _ ← expect .rightParen (.noClosing .whileCondition)
    let body ← statement budget
    return .loop (← node word.pos) test body

/-- A loop with its clauses in front. -/
def forStmt : Nat → Reader Stmt
  | 0 => throw .exhausted
  | budget + 1 => do
    let word ← take
    let _ ← expect .leftParen (.noOpening .forWord)
    let init ← forInit budget
    let test ← forTest budget
    let _ ← ending .loopCondition
    let step ← forStep budget
    let _ ← expect .rightParen (.noClosing .forClauses)
    let body ← statement budget
    forLoop word.pos init test (← forBody word.pos step body)

/-- Declarations in braces, and the node of the braces. -/
def braced : Nat → Reader (Node × List Stmt)
  | 0 => throw .exhausted
  | budget + 1 => do
    let opening ← take
    let body ← declarations endsBlock budget
    if ← takeIf .rightBrace then
      return (← node opening.pos, body)
    else
      refuse .openBlock (← current).pos

end

end Reader

end Lox
