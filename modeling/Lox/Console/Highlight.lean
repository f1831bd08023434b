/-
Colours for a program that is being typed. Each line is looked at on its
own. If it can be scanned, every token gets the colour of its group, a
comment that of comments, and the white space between them none; a name
before an opening parenthesis looks like a function. A line that cannot
be scanned has no colours at all. Whatever the colours, the texts of the
fragments make up the line.
-/
import Lox.Token.Scan

namespace Lox.Console

/-- What a piece of a line is, as far as colours go. -/
inductive Group where
  | keyword
  | boolean
  | constant
  | number
  | string
  | identifier
  | function
  | operator
  | punctuation
  | comment
  | plain
deriving Repr, DecidableEq

/-- The colour of a group. -/
def Group.style : Group → String
  | keyword => "bold ansicyan"
  | boolean => "ansicyan"
  | constant => "ansicyan"
  | number => "ansimagenta"
  | string => "ansigreen"
  | function => "bold ansiyellow"
  | comment => "italic ansigray"
  | identifier | operator | punctuation | plain => ""

/-- A piece of a line. -/
structure Fragment where
  group : Group
  text : String
deriving Repr, DecidableEq

/-- A piece of a line as it is drawn. -/
structure Drawn where
  style : String
  text : String
deriving Repr, DecidableEq

/-- A piece is drawn in the colour of its group. -/
def Fragment.drawn (f : Fragment) : Drawn := ⟨f.group.style, f.text⟩

/-- The group of a kind of token. -/
def Group.ofKind : TokenKind → Group
  | .kwIf | .kwElse | .kwWhile | .kwFor | .kwReturn | .kwFun | .kwVar
  | .kwPrint | .kwClass | .kwSuper | .kwThis | .kwAnd | .kwOr => keyword
  | .kwTrue | .kwFalse => boolean
  | .kwNil => constant
  | .number => number
  | .string => string
  | .identifier => identifier
  | .plus | .minus | .star | .slash | .equalEqual | .bangEqual | .less
  | .lessEqual | .greater | .greaterEqual | .bang | .equal => operator
  | .leftParen | .rightParen | .leftBrace | .rightBrace | .dot | .comma
  | .semicolon => punctuation
  | .endOfText => plain

/-- The group of a token, given the tokens behind it. -/
def Group.ofToken (t : Token) (behind : List Token) : Group :=
  if t.kind = .identifier ∧ behind.head?.map (·.kind) = some .leftParen then
    function
  else ofKind t.kind

/-- What comes before the first comment of a gap, and the comment. -/
def splitComment : List Char → List Char × List Char
  | [] => ([], [])
  | c :: cs =>
    if c = '/' ∧ cs.head? = some '/' then ([], c :: cs)
    else
      let (blank, comment) := splitComment cs
      (c :: blank, comment)

/-- A piece of a line, unless it is empty. -/
def fragment (group : Group) (cs : List Char) : List Fragment :=
  if cs.isEmpty then [] else [⟨group, String.ofList cs⟩]

/-- The pieces of a gap between tokens. -/
def gap (cs : List Char) : List Fragment :=
  let (blank, comment) := splitComment cs
  fragment .plain blank ++ fragment .comment comment

/-- The pieces of a text that starts at `offset` and holds these
tokens. -/
def pieces (offset : Nat) (cs : List Char) : List Token → List Fragment
  | [] => gap cs
  | t :: ts =>
    if t.kind = .endOfText then pieces offset cs ts
    else
      let before := t.pos.offset - offset
      gap (cs.take before) ++ [⟨.ofToken t ts, t.lexeme⟩]
        ++ pieces (t.pos.offset + t.length) (cs.drop (before + t.length)) ts

/-- The pieces of a line, at least one. -/
def highlightLine (line : String) : List Fragment :=
  if line = "" then [⟨.plain, ""⟩]
  else
    match scan line with
    | .error _ => [⟨.plain, line⟩]
    | .ok tokens => pieces 0 line.toList tokens

/-- The pieces of a numbered line of a text; past its end there is an
empty one. -/
def highlightAt (lines : List String) (number : Nat) : List Fragment :=
  match lines[number]? with
  | some line => highlightLine line
  | none => [⟨.plain, ""⟩]

/-- The pieces of a numbered line as they are drawn. -/
def drawAt (lines : List String) (number : Nat) : List Drawn :=
  (highlightAt lines number).map Fragment.drawn

end Lox.Console
