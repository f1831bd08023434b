/-
Trees as words. A word is what a token says, its kind and its text,
without its place. `render` writes a tree back to the words that it was
read from: parentheses stand where the tree has a group and nowhere
else, so whether the words mean the tree again depends on its shape.

# Which trees are written faithfully

- `WellFormed` is the shape that the levels of the operators ask for:
  nothing looser stands where something tighter has to, and the right
  operand of a level is tighter than the level. A declaration stands only
  among other statements, never as a branch or the body of a loop.
- `ElseNearest` asks that no branch in front of an `else` ends in an `if`
  that lacks one, for the `else` would be taken by that.
-/
import Lox.Tree.ReadExpr

namespace Lox

-- ================================================================= words

/-- What a token says: its kind and its text. -/
abbrev Word := TokenKind × String

/-- How a kind is spelled, if all its tokens are spelled alike. -/
def TokenKind.spelling : TokenKind → String
  | leftParen => "("
  | rightParen => ")"
  | leftBrace => "\x7b"
  | rightBrace => "\x7d"
  | comma => ","
  | dot => "."
  | semicolon => ";"
  | minus => "-"
  | plus => "+"
  | slash => "/"
  | star => "*"
  | bang => "!"
  | bangEqual => "!="
  | equal => "="
  | equalEqual => "=="
  | greater => ">"
  | greaterEqual => ">="
  | less => "<"
  | lessEqual => "<="
  | kwAnd => "and"
  | kwClass => "class"
  | kwElse => "else"
  | kwFalse => "false"
  | kwFun => "fun"
  | kwFor => "for"
  | kwIf => "if"
  | kwNil => "nil"
  | kwOr => "or"
  | kwPrint => "print"
  | kwReturn => "return"
  | kwSuper => "super"
  | kwThis => "this"
  | kwTrue => "true"
  | kwVar => "var"
  | kwWhile => "while"
  | identifier | string | number | endOfText => ""

/-- The word of a kind that is always spelled alike. -/
def TokenKind.word (kind : TokenKind) : Word := (kind, kind.spelling)

/-- What a token says beside its kind: the contents of a string, the
spelling of a name or a number, and else what the kind is spelled as. -/
def Token.text (t : Token) : String :=
  match t.kind with
  | .identifier | .number => t.lexeme
  | .string => t.contents
  | kind => kind.spelling

/-- What a token says. -/
def Token.word (t : Token) : Word := (t.kind, t.text)

@[simp] theorem Token.word_fst (t : Token) : t.word.1 = t.kind := rfl

-- ============================================================= rendering

mutual

/-- The words of an expression. -/
def Expr.render : Expr → List Word
  | .literal _ value => [(value.kind, value.text)]
  | .var _ name => [(.identifier, name)]
  | .assign _ name value =>
      (.identifier, name) :: TokenKind.equal.word :: value.render
  | .group _ inner =>
      TokenKind.leftParen.word :: (inner.render ++ [TokenKind.rightParen.word])
  | .unary _ op operand => op.kind.word :: operand.render
  | .binary _ op left right => left.render ++ op.kind.word :: right.render
  | .logical _ op left right => left.render ++ op.kind.word :: right.render
  | .call _ _ callee args =>
      callee.render ++ TokenKind.leftParen.word
        :: (renderArgs args ++ [TokenKind.rightParen.word])

/-- The words of some arguments, with commas between them. -/
def Expr.renderArgs : List Expr → List Word
  | [] => []
  | [e] => e.render
  | e :: es => e.render ++ TokenKind.comma.word :: renderArgs es

end

/-- The words of an expression that may be missing. -/
def Expr.renderOption : Option Expr → List Word
  | none => []
  | some e => e.render

/-- The words of an initializer. -/
def Expr.renderInit : Option Expr → List Word
  | none => []
  | some e => TokenKind.equal.word :: e.render

/-- The words of some parameters, with commas between them. -/
def Name.renderAll : List Name → List Word
  | [] => []
  | [name] => [(.identifier, name.text)]
  | name :: names =>
      (.identifier, name.text) :: TokenKind.comma.word :: renderAll names

mutual

/-- The words of a statement. -/
def Stmt.render : Stmt → List Word
  | .expr _ value => value.render ++ [TokenKind.semicolon.word]
  | .print _ value =>
      TokenKind.kwPrint.word :: (value.render ++ [TokenKind.semicolon.word])
  | .varDecl _ name init =>
      TokenKind.kwVar.word :: (.identifier, name.text)
        :: (Expr.renderInit init ++ [TokenKind.semicolon.word])
  | .funDecl _ name _ params _ body =>
      TokenKind.kwFun.word :: (.identifier, name.text)
        :: TokenKind.leftParen.word
        :: (Name.renderAll params ++ TokenKind.rightParen.word
          :: TokenKind.leftBrace.word
          :: (renderAll body ++ [TokenKind.rightBrace.word]))
  | .block _ body =>
      TokenKind.leftBrace.word
        :: (renderAll body ++ [TokenKind.rightBrace.word])
  | .cond _ test yes none =>
      TokenKind.kwIf.word :: TokenKind.leftParen.word
        :: (test.render ++ TokenKind.rightParen.word :: yes.render)
  | .cond _ test yes (some no) =>
      TokenKind.kwIf.word :: TokenKind.leftParen.word
        :: (test.render ++ TokenKind.rightParen.word
          :: (yes.render ++ TokenKind.kwElse.word :: no.render))
  | .loop _ test body =>
      TokenKind.kwWhile.word :: TokenKind.leftParen.word
        :: (test.render ++ TokenKind.rightParen.word :: body.render)
  | .ret _ value =>
      TokenKind.kwReturn.word
        :: (Expr.renderOption value ++ [TokenKind.semicolon.word])

/-- The words of some statements. -/
def Stmt.renderAll : List Stmt → List Word
  | [] => []
  | s :: ss => s.render ++ renderAll ss

end

-- ================================================================ levels

/-- The level of an operator. -/
def BinaryOp.level : BinaryOp → Level
  | equal | notEqual => .equality
  | greater | greaterEqual | less | lessEqual => .comparison
  | add | subtract => .term
  | multiply | divide => .factor

/-- The level of an operator. -/
def LogicalOp.level : LogicalOp → Level
  | and => .and
  | or => .or

/-- How tight the operators of a level bind. -/
def Level.tightness : Level → Nat
  | or => 1
  | and => 2
  | equality => 3
  | comparison => 4
  | term => 5
  | factor => 6

/-- How tight an operator before an operand binds. -/
def unaryTightness : Nat := 7

/-- How tight a call binds. -/
def callTightness : Nat := 8

/-- How tight an expression binds: an assignment least, a literal, a
name or a group most. -/
def Expr.tightness : Expr → Nat
  | .assign _ _ _ => 0
  | .logical _ op _ _ => op.level.tightness
  | .binary _ op _ _ => op.level.tightness
  | .unary _ _ _ => unaryTightness
  | .call _ _ _ _ => callTightness
  | .literal _ _ | .var _ _ | .group _ _ => 9

-- ================================================================= shapes

mutual

/-- Every operand is as tight as its place asks. -/
def Expr.WellFormed : Expr → Prop
  | .literal _ _ | .var _ _ => True
  | .assign _ _ e | .group _ e => e.WellFormed
  | .unary _ _ e => unaryTightness ≤ e.tightness ∧ e.WellFormed
  | .binary _ op left right =>
      (op.level.tightness ≤ left.tightness ∧ left.WellFormed)
        ∧ op.level.tightness < right.tightness ∧ right.WellFormed
  | .logical _ op left right =>
      (op.level.tightness ≤ left.tightness ∧ left.WellFormed)
        ∧ op.level.tightness < right.tightness ∧ right.WellFormed
  | .call _ _ callee args =>
      (callTightness ≤ callee.tightness ∧ callee.WellFormed)
        ∧ AllWellFormed args

/-- Every operand in these expressions is as tight as its place asks. -/
def Expr.AllWellFormed : List Expr → Prop
  | [] => True
  | e :: es => e.WellFormed ∧ AllWellFormed es

end

/-- Whether a statement declares a name for what follows it. -/
def Stmt.declares : Stmt → Bool
  | .varDecl _ _ _ | .funDecl _ _ _ _ _ _ => true
  | _ => false

/-- Every expression that stands there is well formed. -/
def Expr.OptionWellFormed (e : Option Expr) : Prop :=
  ∀ e' ∈ e, e'.WellFormed

mutual

/-- Every expression in the statement is well formed, and no declaration
is a branch or the body of a loop. -/
def Stmt.WellFormed : Stmt → Prop
  | .expr _ e | .print _ e => e.WellFormed
  | .varDecl _ _ init => Expr.OptionWellFormed init
  | .funDecl _ _ _ _ _ body | .block _ body => AllWellFormed body
  | .cond _ test yes none =>
      test.WellFormed ∧ yes.declares = false ∧ yes.WellFormed
  | .cond _ test yes (some no) =>
      test.WellFormed ∧ (yes.declares = false ∧ yes.WellFormed)
        ∧ no.declares = false ∧ no.WellFormed
  | .loop _ test body =>
      test.WellFormed ∧ body.declares = false ∧ body.WellFormed
  | .ret _ value => Expr.OptionWellFormed value

/-- Every one of these statements is well formed. -/
def Stmt.AllWellFormed : List Stmt → Prop
  | [] => True
  | s :: ss => s.WellFormed ∧ AllWellFormed ss

end

/-- Whether a statement ends in an `if` without an `else`, so that an
`else` behind it would be a part of it. -/
def Stmt.endsOpen : Stmt → Bool
  | .cond _ _ _ none => true
  | .cond _ _ _ (some no) => no.endsOpen
  | .loop _ _ body => body.endsOpen
  | _ => false

mutual

/-- No branch in front of an `else` ends open. -/
def Stmt.ElseNearest : Stmt → Prop
  | .funDecl _ _ _ _ _ body | .block _ body => AllElseNearest body
  | .cond _ _ yes none => yes.ElseNearest
  | .cond _ _ yes (some no) =>
      (yes.endsOpen = false ∧ yes.ElseNearest) ∧ no.ElseNearest
  | .loop _ _ body => body.ElseNearest
  | .expr _ _ | .print _ _ | .varDecl _ _ _ | .ret _ _ => True

/-- No branch in front of an `else` in these statements ends open. -/
def Stmt.AllElseNearest : List Stmt → Prop
  | [] => True
  | s :: ss => s.ElseNearest ∧ AllElseNearest ss

end

end Lox
