/-
The parser accepts exactly its grammar, said without the grammar: what
is accepted is a rendering of well formed trees, and every rendering of
well formed trees is accepted and read back, up to the identities and
places of the nodes.
-/
import Lox.Proofs.Reading.Parse
import Lox.Proofs.Reading.Rendering

namespace Lox

/-- Tokens without a `for` that are accepted are the words of the
program that is made of them, and this is well formed. The words of a
well formed program in which each `else` is that of the nearest `if` can
be said by tokens, and whatever tokens say them are accepted and give
the same program. -/
theorem parse_accepts_exactly_renderings :
    (∀ (ts : List Token) (eof : Token) (n : Nat) (program : List Stmt)
        (n' : Nat),
      eof.kind = .endOfText →
      (∀ t ∈ ts, t.kind ≠ .endOfText ∧ t.kind ≠ .kwFor) →
      parse (ts ++ [eof]) n = ⟨.ok program, n'⟩ →
        Stmt.renderAll program = ts.map Token.word ∧
          Stmt.AllWellFormed program ∧ Stmt.AllElseNearest program) ∧
    (∀ program : List Stmt, Stmt.AllWellFormed program →
      Stmt.AllElseNearest program →
        (∃ ts : List Token, ts.map Token.word = Stmt.renderAll program) ∧
        ∀ (ts : List Token) (eof : Token) (n : Nat),
          eof.kind = .endOfText →
          ts.map Token.word = Stmt.renderAll program →
            ∃ program' n', parse (ts ++ [eof]) n = ⟨.ok program', n'⟩ ∧
              Stmt.bareAll program' = Stmt.bareAll program) := by
  constructor
  · intro ts eof n program n' heof hts hparse
    have hs : Spells n ts (.decls program) n' :=
      spells_of_parse heof (fun t ht => (hts t ht).1) hparse
    have hfor : ∀ t ∈ ts, t.kind ≠ .kwFor := fun t ht => (hts t ht).2
    exact ⟨(hs.words hfor rfl).symm, hs.shaped, hs.nearest hfor⟩
  · intro program hwell hnearest
    refine ⟨Stmt.sayable_all program, fun ts eof n heof hwords => ?_⟩
    obtain ⟨program', n', hs, hbare⟩ :=
      Stmt.spelledBy_all program hwell hnearest n hwords
    exact ⟨program', n', parse_of_spells heof hs, hbare⟩

/-- The tokens of `if (a) if (b) print -1; else c = d();`. -/
def nestedElseTokens : List Token :=
  [(.kwIf, "if"), (.leftParen, "("), (.identifier, "a"),
    (.rightParen, ")"), (.kwIf, "if"), (.leftParen, "("),
    (.identifier, "b"), (.rightParen, ")"), (.kwPrint, "print"),
    (.minus, "-"), (.number, "1"), (.semicolon, ";"), (.kwElse, "else"),
    (.identifier, "c"), (.equal, "="), (.identifier, "d"),
    (.leftParen, "("), (.rightParen, ")"), (.semicolon, ";")].map
      fun w => ⟨w.1, w.2, .start⟩

/-- The program `if (a) if (b) print -1; else c = d();`, in which the
`else` is that of the second `if`. -/
def nestedElse : List Stmt :=
  [.cond .blank (.var .blank "a")
    (.cond .blank (.var .blank "b")
      (.print .blank (.unary .blank .negate (.literal .blank (.number "1"))))
      (some (.expr .blank (.assign .blank "c"
        (.call .blank 0 (.var .blank "d") [])))))
    none]

theorem parse_accepts_exactly_renderings_nestedElse :
    ∃ program n',
      parse (nestedElseTokens ++ [⟨.endOfText, "", .start⟩]) 1
        = ⟨.ok program, n'⟩ ∧
      Stmt.bareAll program = Stmt.bareAll nestedElse ∧
      Stmt.renderAll program = nestedElseTokens.map Token.word := by
  obtain ⟨program, n', hparse, hbare⟩ :=
    (parse_accepts_exactly_renderings.2 nestedElse
      (by simp [nestedElse, Stmt.AllWellFormed, Stmt.WellFormed,
        Expr.WellFormed, Expr.AllWellFormed, Expr.tightness,
        unaryTightness, callTightness, Stmt.declares])
      (by simp [nestedElse, Stmt.AllElseNearest, Stmt.ElseNearest,
        Stmt.endsOpen])).2
      nestedElseTokens ⟨.endOfText, "", .start⟩ 1 rfl rfl
  have hrender := (parse_accepts_exactly_renderings.1 nestedElseTokens
    ⟨.endOfText, "", .start⟩ 1 program n' rfl (by decide) hparse).1
  exact ⟨program, n', hparse, hbare, hrender⟩

end Lox
