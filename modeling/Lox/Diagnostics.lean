/-
The errors of a rejected program: at least one, in the order in which
they were met.
-/

namespace Lox

/-- One error or several. -/
structure Diagnostics (ε : Type) where
  first : ε
  others : List ε
deriving Repr, DecidableEq

namespace Diagnostics

variable {ε : Type}

/-- All the errors, in order. -/
def toList (d : Diagnostics ε) : List ε := d.first :: d.others

/-- The errors of a list, if it holds any. -/
def ofList? : List ε → Option (Diagnostics ε)
  | [] => none
  | e :: es => some ⟨e, es⟩

theorem ofList?_eq_none {es : List ε} : ofList? es = none ↔ es = [] := by
  cases es <;> simp [ofList?]

theorem ofList?_eq_some {es : List ε} {d : Diagnostics ε} :
    ofList? es = some d ↔ d.toList = es := by
  cases es with
  | nil => simp [ofList?, toList]
  | cons e es =>
    cases d
    simp [ofList?, toList, eq_comm]

end Diagnostics

end Lox
