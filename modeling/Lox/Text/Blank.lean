/-
Blank characters: the white space of Unicode together with the
separators among the control characters. A command of the console is
cut at them. The text of a program knows only four of them; those are
in the scanner.
-/
import Lox.Text.CodeRange

namespace Lox.Text

/-- The blank characters, ASCII included. -/
def blankTable : List CodeRange :=
  [(0x9, 0xD), (0x1C, 0x20), (0x85, 0x85), (0xA0, 0xA0), (0x1680, 0x1680),
   (0x2000, 0x200A), (0x2028, 0x2029), (0x202F, 0x202F), (0x205F, 0x205F),
   (0x3000, 0x3000)]

/-- Whether a character is blank. -/
def isBlank (c : Char) : Bool :=
  CodeRange.anyCovers blankTable c.toNat

/-- The text without the blanks at its front. -/
def trimFront (cs : List Char) : List Char :=
  cs.dropWhile isBlank

/-- The text without the blanks at either end. -/
def trim (cs : List Char) : List Char :=
  (trimFront (trimFront cs).reverse).reverse

/-- The characters up to the first blank, and the text after the blanks
that follow them. -/
def cutWord (cs : List Char) : List Char × List Char :=
  (cs.takeWhile (!isBlank ·), trimFront (cs.dropWhile (!isBlank ·)))

end Lox.Text
