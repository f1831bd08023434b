/-
Places in a program text. A place is known three ways at once: its line
and column, as people count them, and its offset, the number of
characters before it. A place is never set by hand: it is where one
arrives by reading characters from the start, so the three coordinates
of any place that a scan reports are functions of the text before it.
-/

namespace Lox

/-- A place in a text: the line and the column count from one, the
offset from nought. -/
structure Position where
  /-- The number of the line, from one. -/
  line : Nat
  /-- The number of the character within its line, from one. -/
  column : Nat
  /-- How many characters come before. -/
  offset : Nat
deriving Repr, DecidableEq, Inhabited

namespace Position

/-- The place before the first character. -/
def start : Position := ⟨1, 1, 0⟩

/-- The place after one more character: a newline opens the next line. -/
def advance (p : Position) (c : Char) : Position :=
  if c = '\n' then ⟨p.line + 1, 1, p.offset + 1⟩
  else ⟨p.line, p.column + 1, p.offset + 1⟩

/-- The place after reading `cs` from `p`. -/
def after (p : Position) (cs : List Char) : Position :=
  cs.foldl advance p

@[simp] theorem after_nil (p : Position) : p.after [] = p := rfl

@[simp] theorem after_cons (p : Position) (c : Char) (cs : List Char) :
    p.after (c :: cs) = (p.advance c).after cs := rfl

theorem after_append (p : Position) (as bs : List Char) :
    p.after (as ++ bs) = (p.after as).after bs := by
  simp [after]

/-- Every character counts one towards the offset. -/
theorem offset_after (p : Position) (cs : List Char) :
    (p.after cs).offset = p.offset + cs.length := by
  induction cs generalizing p with
  | nil => rfl
  | cons c cs ih =>
    have hstep : (p.advance c).offset = p.offset + 1 := by
      unfold advance
      split <;> rfl
    simp only [after_cons, ih, hstep, List.length_cons]
    omega

/-- A place as a diagnostic shows it, behind its message. -/
def suffix (p : Position) : String :=
  s!" (line {p.line}, col {p.column})"

end Position

end Lox
