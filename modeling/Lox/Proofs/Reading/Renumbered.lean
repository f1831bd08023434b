/-
The number that a reading starts with. It is given to the nodes that are
made and looked at by nothing: from a number that is greater by so many,
the same text is accepted or refused in the same way, with the same
errors at the same places, and the program is the same with all its
numbers greater by as many (`readProgram_later`). In particular the
number of the next node never goes back, whatever is read, since a
reading is like one that started with zero (`le_nextId_readProgram`).
This is the case of a reading elsewhere in which no place is moved.
-/
import Lox.Proofs.Reading.Displaced

namespace Lox

/-- The node with a number that is greater by so many. -/
abbrev Node.later (k : Nat) : Node → Node := .renumber (· + k)

/-- The statements with greater numbers. -/
abbrev Stmt.allLater (k : Nat) (ss : List Stmt) : List Stmt :=
  Stmt.mapAll (.later k) ss

theorem SyntaxError.moved_id (e : SyntaxError) : e.moved id = e := by
  obtain ⟨fault, pos⟩ := e
  cases fault <;> rfl

theorem Diagnostics.map_moved_id (d : Diagnostics SyntaxError) :
    d.map (.moved id) = d := by
  obtain ⟨first, others⟩ := d
  have hothers : others.map (SyntaxError.moved id) = others := by
    rw [List.map_congr_left fun e _ => e.moved_id]
    exact List.map_id others
  rw [map, first.moved_id, hothers]

/-- What is made of some tokens, with greater numbers. -/
theorem parse_later (tokens : List Token) (n k : Nat) :
    parse tokens (n + k)
      = ⟨(parse tokens n).result.map (Stmt.allLater k),
          (parse tokens n).nextId + k⟩ := by
  have htokens : tokens.map (·.moved id) = tokens := List.map_id tokens
  have hparse : parse (tokens.map (·.moved id)) (n + k)
      = (parse tokens n).displaced id k := parse_displaced id (.inl rfl) n k
  rw [htokens] at hparse
  rw [hparse]
  unfold Parsed.displaced
  cases (parse tokens n).result with
  | ok program => rfl
  | error errors =>
    show (⟨.error (errors.map (.moved id)), _⟩ : Parsed) = ⟨.error errors, _⟩
    rw [errors.map_moved_id]

/-- A text is read alike from any number on: with the same errors, or as
the same program with greater numbers. -/
theorem readProgram_later (source : String) (n k : Nat) :
    readProgram source (n + k)
      = ((readProgram source n).1.map (Stmt.allLater k),
          (readProgram source n).2 + k) := by
  unfold readProgram
  cases scan source with
  | error e => rfl
  | ok tokens =>
    simp only [parse_later]
    cases (parse tokens n).result <;> rfl

/-- The number of the next node never goes back. -/
theorem le_nextId_readProgram (source : String) (n : Nat) :
    n ≤ (readProgram source n).2 := by
  have hread := readProgram_later source 0 n
  rw [Nat.zero_add] at hread
  rw [hread]
  exact Nat.le_add_left n _

end Lox
