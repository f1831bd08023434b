/-
Whether a text that is being typed wants to go on. It does if a string
is still open, or a parenthesis or a brace. A closing token closes
whatever was opened last, of either kind, and one too many closes
nothing. A text with any other lexical fault does not go on, so that the
fault is shown.
-/
import Lox.Token.Scan

namespace Lox.Console

/-- Whether a token opens something. -/
def opens (t : Token) : Bool :=
  t.kind == .leftParen || t.kind == .leftBrace

/-- Whether a token closes something. -/
def closes (t : Token) : Bool :=
  t.kind == .rightParen || t.kind == .rightBrace

/-- How much is open after one more token. -/
def openAfter (depth : Nat) (t : Token) : Nat :=
  if opens t then depth + 1 else if closes t then depth - 1 else depth

/-- How much some tokens leave open. -/
def openDepth (tokens : List Token) : Nat :=
  tokens.foldl openAfter 0

/-- Whether a text wants to go on. -/
def wantsMore (text : String) : Bool :=
  match scan text with
  | .ok tokens => decide (0 < openDepth tokens)
  | .error e =>
    match e.fault with
    | .unterminatedString _ => true
    | _ => false

end Lox.Console
