/-
Reading tokens one after another. A cursor holds the tokens that are
left, the identity that the next node gets and the syntax errors met so
far. The end of the text is never taken, so a reader always has a token
to look at. A reading stops in one of two ways: at a fault of the
program, which a declaration further out catches, or because it has used
up its budget of nested steps, which nothing catches; the budget that a
program gets is far more than its tokens can use.
-/
import Lox.Tree
import Lox.Tree.SyntaxError

namespace Lox

/-- What a reading goes on from. -/
structure Cursor where
  /-- The tokens that are left. -/
  rest : List Token
  /-- The identity of the next node. -/
  nextId : Nat
  /-- The errors so far, in order. -/
  errors : List SyntaxError
deriving Repr, DecidableEq

/-- Why a reading stopped. -/
inductive Stop where
  | refused (error : SyntaxError)
  | exhausted
deriving Repr, DecidableEq

/-- A reading of some tokens. What it has taken, numbered and collected
stays so when it stops. -/
abbrev Reader := EStateM Stop Cursor

namespace Cursor

/-- The token at the cursor. -/
def current (c : Cursor) : Token :=
  match c.rest with
  | [] => ⟨.endOfText, "", .start⟩
  | t :: _ => t

/-- The cursor behind its token, unless that is the end of the text. -/
def advance (c : Cursor) : Cursor :=
  match c.rest with
  | [] => c
  | t :: rest => if t.kind = .endOfText then c else { c with rest }

/-- A token that is taken is the first of those that were left. -/
theorem rest_eq_current_cons_advance {c : Cursor}
    (h : c.current.kind ≠ .endOfText) :
    c.rest = c.current :: c.advance.rest := by
  unfold current advance at *
  split
  · simp_all
  · simp_all

end Cursor

namespace Reader

-- ========================================================= single tokens

/-- The token at the cursor, which stays. -/
def current : Reader Token := return (← get).current

/-- The kind of the token at the cursor. -/
def kind : Reader TokenKind := return (← current).kind

/-- The token at the cursor, which is taken. -/
def take : Reader Token := do
  let t ← current
  modify Cursor.advance
  return t

/-- Takes the token at the cursor if it is of this kind, and says
whether it was. -/
def takeIf (wanted : TokenKind) : Reader Bool := do
  if (← kind) = wanted then
    modify Cursor.advance
    return true
  else
    return false

/-- Stops at a fault met at this place. -/
def refuse {α : Type} (fault : SyntaxFault) (pos : Position) : Reader α :=
  throw (.refused ⟨fault, pos⟩)

/-- Takes a token of this kind, or stops at a fault that names the kind
met instead. -/
def expect (wanted : TokenKind) (fault : TokenKind → SyntaxFault) :
    Reader Token := do
  let t ← current
  if t.kind = wanted then take
  else refuse (fault t.kind) t.pos

/-- A node with the next identity. -/
def node (pos : Position) : Reader Node :=
  modifyGet fun c => (⟨c.nextId, pos⟩, { c with nextId := c.nextId + 1 })

-- ============================================================== recovery

/-- Where reading is taken up again after a fault: behind the first
semicolon, or before a token that opens a statement, but not at the
token of the fault itself. -/
def resume : List Token → List Token
  | [] => []
  | t :: rest =>
    if t.kind = .endOfText then t :: rest
    else if t.kind = .semicolon then rest
    else match rest with
    | [] => []
    | next :: _ =>
        if next.kind.opensStatement then rest else resume rest

/-- Reads a statement; at a fault records it, gives the statement up and
moves on to where reading is taken up again. -/
def recovering (reader : Reader Stmt) : Reader (Option Stmt) := fun c =>
  match reader c with
  | .ok stmt c => .ok (some stmt) c
  | .error (.refused e) c =>
      .ok none { c with
        rest := resume c.rest
        errors := c.errors ++ [e] }
  | .error .exhausted c => .error .exhausted c

end Reader

end Lox
