/-
The parser is the grammar. Of tokens that end with the end of the text,
a program is made exactly when they spell one, and it is the one that
they spell: the errors that a reading records and gives up at are met
only off the grammar, and the budget is never what ends a reading of
something in it.
-/
import Lox.Program
import Lox.Proofs.Reading.Complete

namespace Lox

open Reader

-- ================================================= the end of the text

theorem UnaryOp.kind_ne_end {kind : TokenKind} {op : UnaryOp}
    (h : UnaryOp.ofKind? kind = some op) : kind ≠ .endOfText := by
  rintro rfl
  cases h

theorem Level.kind_ne_end {ℓ : Level} {kind : TokenKind} {op : Connective}
    (h : ℓ.connective? kind = some op) : kind ≠ .endOfText := by
  rintro rfl
  cases ℓ <;> cases h

/-- The end of the text spells nothing. -/
theorem Spells.ne_end {n n' : Nat} {ts : List Token} {p : Phrase}
    (h : Spells n ts p n') : ∀ t ∈ ts, t.kind ≠ .endOfText := by
  induction h with
  | literal hvalue => simpa using Literal.kind_ne_end hvalue
  | unary hop _ ih =>
      simp only [List.forall_mem_cons]
      exact ⟨UnaryOp.kind_ne_end hop, ih⟩
  | join _ hop _ _ ih₁ ih₂ =>
      simp only [List.forall_mem_append, List.forall_mem_cons]
      exact ⟨ih₁, Level.kind_ne_end hop, ih₂⟩
  | _ =>
      simp_all only [List.forall_mem_append, List.forall_mem_cons,
        List.not_mem_nil, false_implies, implies_true, and_true, ne_eq,
        reduceCtorEq, not_false_eq_true]

/-- Before the end of a text, a reading that stopped at the end has
taken all of it. -/
theorem eq_of_append_end {ts taken rest : List Token} {eof : Token}
    (hts : ∀ t ∈ ts, t.kind ≠ .endOfText)
    (htaken : ∀ t ∈ taken, t.kind ≠ .endOfText)
    (heof : eof.kind = .endOfText) (hrest : kindAt rest = .endOfText)
    (h : ts ++ [eof] = taken ++ rest) : ts = taken := by
  rcases List.append_eq_append_iff.1 h with
    ⟨more, rfl, hmore⟩ | ⟨more, rfl, hmore⟩
  · cases more with
    | nil => simp
    | cons t more =>
      injection hmore with ht _
      exact absurd heof (ht ▸ htaken t (by simp))
  · cases more with
    | nil => simp
    | cons t more =>
      rw [hmore] at hrest
      exact absurd hrest (hts t (by simp))

-- ============================================================ the parser

variable {ts : List Token} {eof : Token} {n n' : Nat} {program : List Stmt}

/-- A program that is accepted is spelled by its tokens. -/
theorem spells_of_parse (heof : eof.kind = .endOfText)
    (hts : ∀ t ∈ ts, t.kind ≠ .endOfText)
    (h : parse (ts ++ [eof]) n = ⟨.ok program, n'⟩) :
    Spells n ts (.decls program) n' := by
  unfold parse at h
  simp only at h
  split at h
  · next program' c hread =>
    split at h
    · next herr =>
      simp only [Parsed.mk.injEq, Except.ok.injEq] at h
      obtain ⟨rfl, rfl⟩ := h
      rw [Diagnostics.ofList?_eq_none] at herr
      obtain ⟨⟨-, taken, htaken, hs⟩, hends⟩ :=
        (readsStmts _).declarations hread herr
      have hrest : kindAt c.rest = .endOfText := by
        have hkind : c.current.kind = .endOfText := by
          simpa [endsProgram] using hends
        rwa [show c = ⟨c.rest, c.nextId, c.errors⟩ from rfl,
          kind_current] at hkind
      rw [eq_of_append_end hts hs.ne_end heof hrest htaken]
      exact hs
    · simp at h
  · simp at h
  · simp at h

/-- Tokens that spell a program are accepted. -/
theorem parse_of_spells (heof : eof.kind = .endOfText)
    (h : Spells n ts (.decls program) n') :
    parse (ts ++ [eof]) n = ⟨.ok program, n'⟩ := by
  have hread : declarations endsProgram (nestingBudget (ts ++ [eof]))
      ⟨ts ++ [eof], n, []⟩ = .ok program ⟨[eof], n', []⟩ := by
    refine h.accepted _ [eof] [] ?_ (by simp [Phrase.StopsAt, heof])
      endsProgram ?_ ?_
    · simp only [nestingBudget, List.length_append, List.length_singleton,
        Phrase.steps]
      omega
    · intro kind hkind
      cases kind <;> first | rfl | cases hkind
    · simp [kind_current, endsProgram, heof]
  unfold parse
  simp only [hread]
  rfl

/-- The parser makes a program of the tokens that spell it, and of no
other. -/
theorem parse_eq_ok_iff (heof : eof.kind = .endOfText)
    (hts : ∀ t ∈ ts, t.kind ≠ .endOfText) :
    parse (ts ++ [eof]) n = ⟨.ok program, n'⟩
      ↔ Spells n ts (.decls program) n' :=
  ⟨spells_of_parse heof hts, parse_of_spells heof⟩

end Lox
