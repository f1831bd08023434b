/-
From bytes to text. A text is strict UTF-8: no overlong form, no
surrogate, nothing cut short. Its lines may end in a newline, in a
carriage return or in both; inside the program they all end in a
newline. A byte order mark is a character like any other.
-/

namespace Lox.Text

/-- The text with every line end made a newline. -/
def unifyLineEnds : List Char → List Char
  | [] => []
  | '\r' :: '\n' :: cs => '\n' :: unifyLineEnds cs
  | '\r' :: cs => '\n' :: unifyLineEnds cs
  | c :: cs => c :: unifyLineEnds cs

/-- The text that some bytes spell, if they spell one. -/
def decode? (bytes : ByteArray) : Option String :=
  (String.fromUTF8? bytes).map fun s =>
    String.ofList (unifyLineEnds s.toList)

end Lox.Text
