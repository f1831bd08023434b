/-
From text to tokens. At each point `front` says what stands at the front
of the text that is left: white space or a comment to be skipped, the
longest token that starts there, or a fault. `scan` takes it off and
goes on behind it, and the places come from the characters taken off.
The first fault ends the scan.
-/
import Lox.Token

namespace Lox

-- ============================================================ the faults

/-- Why no token starts at a place. -/
inductive ScanFault where
  /-- The character starts nothing. -/
  | unexpectedCharacter (character : Char)
  /-- No quote closes the string; what it holds up to the end. -/
  | unterminatedString (partialText : String)
  /-- No digit follows the point; the spelling up to the point. -/
  | unterminatedNumber (partialText : String)
deriving Repr, DecidableEq

/-- The wording of a fault. -/
def ScanFault.message : ScanFault → String
  | .unexpectedCharacter c =>
      "Unexpected character '" ++ c.toString ++ "'"
  | .unterminatedString _ => "Unterminated string"
  | .unterminatedNumber partialText =>
      "Unterminated number '" ++ partialText ++ "'"

/-- A fault and the place where the token would have started. -/
structure ScanError where
  fault : ScanFault
  pos : Position
deriving Repr, DecidableEq

/-- The full text of the diagnostic. -/
def ScanError.message (e : ScanError) : String :=
  e.fault.message ++ e.pos.suffix

-- ================================================= classes of characters

/-- The white space between tokens. -/
def isLayout (c : Char) : Bool :=
  c == ' ' || c == '\t' || c == '\r' || c == '\n'

/-- Whether a name can start with the character. -/
def startsName (c : Char) : Bool := Text.isLetter c || c == '_'

/-- Whether a name can go on with the character. -/
def continuesName (c : Char) : Bool := Text.isAlphanumeric c || c == '_'

/-- The tokens of one character that no other token starts with. -/
def punctuation? : Char → Option TokenKind
  | '(' => some .leftParen
  | ')' => some .rightParen
  | '{' => some .leftBrace
  | '}' => some .rightBrace
  | ',' => some .comma
  | '.' => some .dot
  | '-' => some .minus
  | '+' => some .plus
  | ';' => some .semicolon
  | '*' => some .star
  | _ => none

/-- The tokens that an equals sign makes longer: the kind alone and the
kind with the sign. -/
def extensible? : Char → Option (TokenKind × TokenKind)
  | '!' => some (.bang, .bangEqual)
  | '=' => some (.equal, .equalEqual)
  | '<' => some (.less, .lessEqual)
  | '>' => some (.greater, .greaterEqual)
  | _ => none

/-- The kind of a word: a keyword or an identifier. -/
def wordKind (word : String) : TokenKind :=
  match word with
  | "and" => .kwAnd
  | "class" => .kwClass
  | "else" => .kwElse
  | "false" => .kwFalse
  | "for" => .kwFor
  | "fun" => .kwFun
  | "if" => .kwIf
  | "nil" => .kwNil
  | "or" => .kwOr
  | "print" => .kwPrint
  | "return" => .kwReturn
  | "super" => .kwSuper
  | "this" => .kwThis
  | "true" => .kwTrue
  | "var" => .kwVar
  | "while" => .kwWhile
  | _ => .identifier

-- ========================================================== one step

/-- What stands at the front of a text, and how many characters beyond
the first belong to it. -/
inductive Front where
  | skipped (more : Nat)
  | token (kind : TokenKind) (more : Nat)
  | fault (fault : ScanFault)
deriving Repr, DecidableEq

/-- A string literal, behind its opening quote. It has no escapes and
may run over several lines. -/
def stringFront (rest : List Char) : Front :=
  let contents := rest.takeWhile (· != '"')
  if contents.length < rest.length then .token .string (contents.length + 1)
  else .fault (.unterminatedString (String.ofList rest))

/-- A number literal, behind its first digit. -/
def numberFront (first : Char) (rest : List Char) : Front :=
  let digits := rest.takeWhile Text.isDigit
  match rest.dropWhile Text.isDigit with
  | '.' :: places =>
      let decimals := places.takeWhile Text.isDigit
      if decimals.isEmpty then
        .fault (.unterminatedNumber (String.ofList (first :: digits ++ ['.'])))
      else .token .number (digits.length + 1 + decimals.length)
  | _ => .token .number digits.length

/-- A keyword or an identifier, behind its first character. -/
def wordFront (first : Char) (rest : List Char) : Front :=
  let tail := rest.takeWhile continuesName
  .token (wordKind (String.ofList (first :: tail))) tail.length

/-- What stands at the front of the text `c :: rest`. -/
def front (c : Char) (rest : List Char) : Front :=
  if isLayout c then .skipped 0
  else if c = '/' then
    if rest.head? = some '/' then
      .skipped (rest.takeWhile (· != '\n')).length
    else .token .slash 0
  else match punctuation? c with
  | some kind => .token kind 0
  | none =>
    match extensible? c with
    | some (alone, extended) =>
        if rest.head? = some '=' then .token extended 1 else .token alone 0
    | none =>
      if c = '"' then stringFront rest
      else if Text.isDigit c then numberFront c rest
      else if startsName c then wordFront c rest
      else .fault (.unexpectedCharacter c)

-- ============================================================ the scan

/-- The tokens of a text that starts at `p`, the end of the text last. -/
def scanFrom (p : Position) : List Char → Except ScanError (List Token)
  | [] => .ok [⟨.endOfText, "", p⟩]
  | c :: rest =>
    match front c rest with
    | .skipped more =>
        scanFrom (p.after (c :: rest.take more)) (rest.drop more)
    | .token kind more =>
        (scanFrom (p.after (c :: rest.take more)) (rest.drop more)).map
          (⟨kind, String.ofList (c :: rest.take more), p⟩ :: ·)
    | .fault fault => .error ⟨fault, p⟩
termination_by cs => cs.length
decreasing_by all_goals simp only [List.length_drop, List.length_cons]; omega

/-- The tokens of a program text. -/
def scan (source : String) : Except ScanError (List Token) :=
  scanFrom .start source.toList

end Lox
