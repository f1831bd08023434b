/-
Classes of characters, written down as lists of closed ranges of code
points. A property of the Unicode standard has no shorter definition
than its table; this file fixes what a table means, and the tables
themselves stand in `Letter.lean` and `Numeral.lean`.
-/

namespace Lox

/-- A closed range of code points, its first and its last. -/
abbrev CodeRange := Nat × Nat

namespace CodeRange

/-- Whether a code point lies between the two ends, both included. -/
def covers (r : CodeRange) (n : Nat) : Bool :=
  decide (r.1 ≤ n) && decide (n ≤ r.2)

/-- Whether some range of the table covers the code point. -/
def anyCovers (table : List CodeRange) (n : Nat) : Bool :=
  table.any (covers · n)

theorem anyCovers_iff {table : List CodeRange} {n : Nat} :
    anyCovers table n = true ↔ ∃ r ∈ table, r.1 ≤ n ∧ n ≤ r.2 := by
  simp [anyCovers, covers]

end CodeRange

end Lox
