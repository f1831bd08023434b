/-
One text behind another. What stands behind a program that is accepted is
read as if it stood alone: the trees of the one are followed by the trees
of the other, or its errors are the only ones (`parse_append`). The one
thing that must not stand there is `else`, which would go on with the last
statement.

The parser reads a program as a whole, so first it is said what it makes
of a text wherever it starts to read it (`declarations_run`): that does
not depend on the errors that it has met before, and of the budget only
that it is enough.
-/
import Lox.Proofs.Reading.Extent
import Lox.Proofs.Reading.Renumbered

namespace Lox

open Reader

section Reading

variable {tokens : List Token} {n : Nat}

/-- What is made of a text, with the errors met in it and the next
number. -/
def Parsed.of (program : List Stmt) (errors : List SyntaxError) (id : Nat) :
    Parsed :=
  match Diagnostics.ofList? errors with
  | none => ⟨.ok program, id⟩
  | some d => ⟨.error d, id⟩

/-- The errors of a text, none if it is a program. -/
def Parsed.errors (p : Parsed) : List SyntaxError :=
  match p.result with
  | .ok _ => []
  | .error d => d.toList

@[simp] theorem Parsed.errors_of (program : List Stmt)
    (errors : List SyntaxError) (id : Nat) :
    (Parsed.of program errors id).errors = errors := by
  cases errors <;> rfl

/-- A text with its end in it is read up to some point, with some errors,
whatever was met before and however great the budget is. -/
theorem declarations_run (h : ∃ t ∈ tokens, t.kind = .endOfText) (n : Nat) :
    ∃ program rest id errors, ∀ earlier budget,
      nestingBudget tokens ≤ budget →
        declarations endsProgram budget ⟨tokens, n, earlier⟩
          = .ok program ⟨rest, id, earlier ++ errors⟩ := by
  -- The text is read up to its first end.
  obtain ⟨ts, eof, junk, rfl, heof, hts⟩ : ∃ ts eof junk,
      tokens = ts ++ eof :: junk ∧ eof.kind = .endOfText ∧
        ∀ t ∈ ts, t.kind ≠ .endOfText := by
    have hfind : (tokens.find? (·.kind = .endOfText)).isSome := by
      simpa [List.find?_isSome] using h
    obtain ⟨eof, heof⟩ := Option.isSome_iff_exists.1 hfind
    obtain ⟨hkind, ts, junk, htokens, hts⟩ :=
      List.find?_eq_some_iff_append.1 heof
    exact ⟨ts, eof, junk, htokens, by simpa using hkind,
      fun t ht => by simpa using hts t ht⟩
  obtain ⟨program, id, errors, hrun, -⟩ := declarations_reach_end heof hts n
  refine ⟨program, eof :: junk, id, errors, fun earlier budget hbudget => ?_⟩
  have hle : nestingBudget (ts ++ [eof]) ≤ budget := by
    refine Nat.le_trans ?_ hbudget
    simp only [nestingBudget, List.length_append, List.length_cons,
      List.length_nil]
    omega
  have hread := ((stmtsPersist hle).declarations endsProgram).run_behind
    (ended_of_append heof []) hrun junk earlier
  simpa [Cursor.followed, Cursor.behind] using hread

/-- What the parser makes of a text is what its declarations are read
as. -/
theorem parse_eq_of {program : List Stmt} {rest : List Token} {id : Nat}
    {errors : List SyntaxError}
    (h : declarations endsProgram (nestingBudget tokens) ⟨tokens, n, []⟩
      = .ok program ⟨rest, id, errors⟩) :
    parse tokens n = .of program errors id := by
  unfold parse
  simp only [h]
  rfl

/-- The number that a reading starts with makes no difference to the
errors. -/
theorem errors_parse_eq (tokens : List Token) (n n' : Nat) :
    (parse tokens n).errors = (parse tokens n').errors := by
  have hzero (n : Nat) :
      (parse tokens n).errors = (parse tokens 0).errors := by
    have hlater := parse_later tokens 0 n
    rw [Nat.zero_add] at hlater
    rw [hlater]
    unfold Parsed.errors
    cases (parse tokens 0).result <;> rfl
  rw [hzero n, hzero n']

end Reading

-- ===================================================== accepted programs

section Accepted

variable {ts tail : List Token} {n n' : Nat} {program : List Stmt}

/-- Behind declarations that are accepted stands another one, or what
stands behind them all. -/
theorem Spells.kindAt_ne_else (h : Spells n ts (.decls program) n')
    (htail : kindAt tail ≠ .kwElse) : kindAt (ts ++ tail) ≠ .kwElse := by
  cases program with
  | nil =>
    cases h
    exact htail
  | cons s ss =>
    obtain ⟨t, rest, rfl, hbegins⟩ := h.begins rfl
    rintro hother
    rw [List.cons_append, kindAt_cons] at hother
    rw [hother] at hbegins
    cases hbegins

/-- Declarations that are accepted are read one by one, and then what
stands behind them. -/
theorem Spells.declarations_append (h : Spells n ts (.decls program) n')
    (htail : kindAt tail ≠ .kwElse) {errors : List SyntaxError} (least : Nat)
    (hleast : 18 ≤ least) {others : List Stmt} {c : Cursor}
    (hothers : ∀ budget, least ≤ budget →
      declarations endsProgram budget ⟨tail, n', errors⟩ = .ok others c)
    {budget : Nat} (hbudget : 32 * ts.length + least ≤ budget) :
    declarations endsProgram budget ⟨ts ++ tail, n, errors⟩
      = .ok (program ++ others) c := by
  induction program generalizing n ts budget with
  | nil =>
    cases h
    exact hothers budget (by simpa using hbudget)
  | cons s ss ih =>
    cases h with
    | @cons _ n₁ _ ts ts' _ _ hfirst hmore =>
    obtain ⟨t, rest, rfl, hbegins⟩ := hfirst.begins rfl
    simp only [List.length_append, List.length_cons] at hbudget
    obtain ⟨budget, rfl⟩ : ∃ more, budget = more + 1 :=
      ⟨budget - 1, by omega⟩
    have hread : declaration budget ⟨t :: rest ++ (ts' ++ tail), n, errors⟩
        = .ok (some s) ⟨ts' ++ tail, n₁, errors⟩ :=
      hfirst.accepted budget _ errors
        (by simp only [List.length_cons, Phrase.steps]; omega)
        (hmore.kindAt_ne_else htail)
    have hgoes : endsProgram t.kind ≠ true := by
      intro hends
      have hend : t.kind = .endOfText := by simpa [endsProgram] using hends
      rw [hend] at hbegins
      cases hbegins
    rw [List.append_assoc, declarations, kind_mk, List.cons_append,
      kindAt_cons, if_neg hgoes, ← List.cons_append, bind_of_ok hread,
      bind_of_ok (ih hmore (by omega))]
    rfl

end Accepted

/-- Behind a program that is accepted, a text is read as if it stood
alone, with the number that the program has left: the trees of the one are
followed by the trees of the other, or its errors are the only ones. -/
theorem parse_append {ts tokens : List Token} {eof : Token} {n n' : Nat}
    {program : List Stmt} (heof : eof.kind = .endOfText)
    (hts : ∀ t ∈ ts, t.kind ≠ .endOfText)
    (haccepted : parse (ts ++ [eof]) n = ⟨.ok program, n'⟩)
    (hend : ∃ t ∈ tokens, t.kind = .endOfText)
    (hother : kindAt tokens ≠ .kwElse) :
    parse (ts ++ tokens) n
      = ⟨(parse tokens n').result.map (program ++ ·),
          (parse tokens n').nextId⟩ := by
  obtain ⟨others, rest, id, errors, hrun⟩ := declarations_run hend n'
  have hall : declarations endsProgram (nestingBudget (ts ++ tokens))
      ⟨ts ++ tokens, n, []⟩
      = .ok (program ++ others) ⟨rest, id, errors⟩ := by
    refine (spells_of_parse heof hts haccepted).declarations_append hother
      (nestingBudget tokens) ?_ (hrun []) ?_
    · simp only [nestingBudget]
      omega
    · simp only [nestingBudget, List.length_append]
      omega
  rw [parse_eq_of hall, parse_eq_of (hrun [] _ (Nat.le_refl _))]
  cases errors <;> rfl

/-- Behind a conditional, which an `else` would go on with, stands a faulty
statement: the errors are those of that statement. -/
theorem parse_append_faulty :
    let mark : Token := ⟨.semicolon, ";", .start⟩
    let eof : Token := ⟨.endOfText, "", .start⟩
    let first : List Token :=
      [⟨.kwIf, "if", .start⟩, ⟨.leftParen, "(", .start⟩,
        ⟨.identifier, "a", .start⟩, ⟨.rightParen, ")", .start⟩,
        ⟨.identifier, "b", .start⟩, mark]
    let tokens : List Token := [⟨.kwPrint, "print", .start⟩, mark, eof]
    parse (first ++ tokens) 0
      = ⟨.error ⟨⟨.noExpression .semicolon, .start⟩, []⟩, 4⟩ := by
  intro mark eof first tokens
  have haccepted : parse (first ++ [eof]) 0
      = ⟨.ok [.cond ⟨3, .start⟩ (.var ⟨0, .start⟩ "a")
          (.expr ⟨2, .start⟩ (.var ⟨1, .start⟩ "b")) none], 4⟩ := rfl
  rw [parse_append rfl (by decide) haccepted ⟨eof, by decide, rfl⟩
    (by decide)]
  rfl

/-- Behind the same conditional, an `else` that has an error alone has
none. -/
example :
    let mark : Token := ⟨.semicolon, ";", .start⟩
    let first : List Token :=
      [⟨.kwIf, "if", .start⟩, ⟨.leftParen, "(", .start⟩,
        ⟨.identifier, "a", .start⟩, ⟨.rightParen, ")", .start⟩,
        ⟨.identifier, "b", .start⟩, mark]
    let tokens : List Token :=
      [⟨.kwElse, "else", .start⟩, ⟨.identifier, "c", .start⟩, mark,
        ⟨.endOfText, "", .start⟩]
    (parse (first ++ tokens) 0).errors = [] ∧
      (parse tokens 4).errors = [⟨.noExpression .kwElse, .start⟩] :=
  ⟨rfl, rfl⟩

end Lox
