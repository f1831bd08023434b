/-
Tokens: the words of a program. A token is its kind, its exact spelling
and its place; all else that is asked of it (the contents of a string,
the value of a number) is a function of the spelling. The names of the
kinds are those that a syntax error shows.
-/
import Lox.Position
import Lox.Number

namespace Lox

/-- What a token is. Every keyword is a kind of its own, and the end of
the text is a token too. -/
inductive TokenKind where
  | leftParen
  | rightParen
  | leftBrace
  | rightBrace
  | comma
  | dot
  | semicolon
  | minus
  | plus
  | slash
  | star
  | bang
  | bangEqual
  | equal
  | equalEqual
  | greater
  | greaterEqual
  | less
  | lessEqual
  | identifier
  | string
  | number
  | kwAnd
  | kwClass
  | kwElse
  | kwFalse
  | kwFun
  | kwFor
  | kwIf
  | kwNil
  | kwOr
  | kwPrint
  | kwReturn
  | kwSuper
  | kwThis
  | kwTrue
  | kwVar
  | kwWhile
  | endOfText
deriving Repr, DecidableEq, Inhabited

namespace TokenKind

/-- The name of a kind in a diagnostic. -/
def name : TokenKind → String
  | leftParen => "LPAR"
  | rightParen => "RPAR"
  | leftBrace => "LBRACE"
  | rightBrace => "RBRACE"
  | comma => "COMMA"
  | dot => "DOT"
  | semicolon => "SEMI"
  | minus => "MINUS"
  | plus => "PLUS"
  | slash => "SLASH"
  | star => "STAR"
  | bang => "NEG"
  | bangEqual => "NEQ"
  | equal => "ASSIGN"
  | equalEqual => "EQ"
  | greater => "GT"
  | greaterEqual => "GTE"
  | less => "LT"
  | lessEqual => "LTE"
  | identifier => "IDENT"
  | string => "STRING"
  | number => "NUMBER"
  | kwAnd => "AND"
  | kwClass => "CLASS"
  | kwElse => "ELSE"
  | kwFalse => "FALSE"
  | kwFun => "FUN"
  | kwFor => "FOR"
  | kwIf => "IF"
  | kwNil => "NIL"
  | kwOr => "OR"
  | kwPrint => "PRINT"
  | kwReturn => "RETURN"
  | kwSuper => "SUPER"
  | kwThis => "THIS"
  | kwTrue => "TRUE"
  | kwVar => "VAR"
  | kwWhile => "WHILE"
  | endOfText => "EOF"

/-- Whether a statement may start here for certain, so that reading can
be taken up again before a token of this kind. -/
def opensStatement : TokenKind → Bool
  | kwClass | kwFun | kwVar | kwFor | kwIf | kwWhile | kwPrint
  | kwReturn => true
  | _ => false

end TokenKind

/-- A word of a program. -/
structure Token where
  kind : TokenKind
  /-- The exact spelling, quotes included. -/
  lexeme : String
  /-- The place of the first character. -/
  pos : Position
deriving Repr, DecidableEq, Inhabited

namespace Token

/-- How many characters the spelling has. -/
def length (t : Token) : Nat := t.lexeme.length

/-- What a string literal holds: the spelling between the quotes. -/
def contents (t : Token) : String :=
  String.ofList (t.lexeme.toList.drop 1).dropLast

/-- The value of a number literal. -/
def value (t : Token) : Float := Number.ofLiteral t.lexeme

end Token

end Lox
