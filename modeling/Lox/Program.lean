/-
Programs: the statements that a text stands for. A text is rejected with
its one lexical fault, or with all its syntax errors. The identities of
the nodes go on from a given one and never return: those of the
statements that a rejected text did contain are used up as well.
-/
import Lox.Diagnostics
import Lox.Token.Scan
import Lox.Tree.ReadStmt

namespace Lox

/-- What is made of some tokens, and the identity that the next node
gets. -/
structure Parsed where
  result : Except (Diagnostics SyntaxError) (List Stmt)
  nextId : Nat

/-- Nested steps enough for any reading of so many tokens: between two
tokens taken there are fewer steps than this factor. -/
def nestingBudget (tokens : List Token) : Nat :=
  32 * (tokens.length + 1)

/-- The program that some tokens spell. -/
def parse (tokens : List Token) (nextId : Nat) : Parsed :=
  let reader := Reader.declarations Reader.endsProgram (nestingBudget tokens)
  match reader ⟨tokens, nextId, []⟩ with
  | .ok program c =>
    match Diagnostics.ofList? c.errors with
    | none => ⟨.ok program, c.nextId⟩
    | some errors => ⟨.error errors, c.nextId⟩
  | .error (.refused e) c => ⟨.error ⟨e, c.errors⟩, c.nextId⟩
  | .error .exhausted c =>
      ⟨.error ⟨⟨.noExpression c.current.kind, c.current.pos⟩, c.errors⟩,
        c.nextId⟩

/-- Why a text is no program. -/
inductive TextError where
  | scan (error : ScanError)
  | syntactic (errors : Diagnostics SyntaxError)
deriving Repr, DecidableEq

/-- The program that a text spells, and the identity that the next node
gets. -/
def readProgram (source : String) (nextId : Nat) :
    Except TextError (List Stmt) × Nat :=
  match scan source with
  | .error e => (.error (.scan e), nextId)
  | .ok tokens =>
    let parsed := parse tokens nextId
    (parsed.result.mapError .syntactic, parsed.nextId)

end Lox
