/-
Parentheses around an expression. Before an expression stand opening
parentheses, behind it closing ones, and then a semicolon. That is a
statement exactly when there are as many of the one as of the other, and
its tree is that of the expression within so many groups. If closing ones
are missing, that is the one error, met at the semicolon; if there are too
many, the one error is met at the first that is too many
(`parse_parenthesized`).

# How it is shown

As many of the one as of the other are in the grammar (`Spells.grouped`),
so the parser takes them. In each of the other two cases the parentheses
that do match are in the grammar together with the expression, so they are
taken as one expression; what is wrong is met at the token behind it. It
is met inside the parentheses that are opened further out, and for these a
refusal goes through: a reader of expressions is refused where the reader
of its first primary expression is (`expression_of_error`). A reading that
is refused at a semicolon, or among closing parentheses before one, is
taken up behind it, where nothing is left to find.
-/
import Lox.Proofs.Reading.Faulty
import Lox.Proofs.Reading.Rendering

namespace Lox

open Reader

-- ============================================================== balanced

/-- An expression in the parentheses that are opened before it. The
innermost group is complete first. -/
def Expr.grouped (n : Nat) (e : Expr) : List Token → Expr
  | [] => e
  | opening :: openings =>
      .group ⟨n + openings.length, opening.pos⟩ (e.grouped n openings)

/-- With as many parentheses closed behind it as are opened before it, an
expression is one in so many groups. -/
theorem Spells.grouped {n n' : Nat} {ts openings closings : List Token}
    {e : Expr} (h : Spells n ts (.expr .assignment e) n')
    (hopen : ∀ t ∈ openings, t.kind = .leftParen)
    (hclose : ∀ t ∈ closings, t.kind = .rightParen)
    (hlength : openings.length = closings.length) :
    Spells n (openings ++ ts ++ closings)
      (.expr .assignment (e.grouped n' openings))
      (n' + openings.length) := by
  -- The outermost pair is the first that is opened and the last closed.
  induction openings generalizing closings with
  | nil =>
    obtain rfl : closings = [] := List.length_eq_zero_iff.1 hlength.symm
    simpa [Expr.grouped] using h
  | cons opening openings ih =>
    rcases List.eq_nil_or_concat closings with rfl | ⟨closings, closing, rfl⟩
    · cases hlength
    · simp only [List.concat_eq_append, List.length_append, List.length_cons,
        List.length_nil, Nat.add_right_cancel_iff] at hlength
      simp only [List.concat_eq_append, List.forall_mem_append,
        List.forall_mem_singleton] at hclose
      simp only [List.forall_mem_cons] at hopen
      have hgroup := Spells.group hopen.1 (ih hopen.2 hclose.1 hlength)
        hclose.2
      have htokens : opening :: openings ++ ts ++ closings.concat closing
          = opening :: (openings ++ ts ++ closings ++ [closing]) := by
        simp
      rw [htokens]
      exact hgroup.loosen .assignment (Nat.zero_le _)

-- =============================================================== refused

namespace Reader

variable {budget n n' : Nat} {c c' : Cursor} {stop : Stop}
  {errors : List SyntaxError} {ts rest : List Token} {opening : Token}

/-- The operands of a level are refused where those of the next are. -/
theorem joined_of_error {ℓ tighter : Level} (hℓ : ℓ.tighter? = some tighter)
    (h : joined budget tighter c = .error stop c') :
    joined (budget + 2) ℓ c = .error stop c' := by
  have hoperand : operand (budget + 1) ℓ c = .error stop c' := by
    rw [operand, hℓ]
    exact h
  rw [joined, Sequencing.bind_of_error hoperand]

/-- An expression that does not begin with an operator is refused where
its first primary expression is. -/
theorem expression_of_error (hkind : UnaryOp.ofKind? c.current.kind = none)
    (h : primary budget c = .error stop c') :
    expression (budget + 15) c = .error stop c' := by
  have hcalled : called (budget + 1) c = .error stop c' := by
    rw [called, Sequencing.bind_of_error h]
  have hunary : unary (budget + 2) c = .error stop c' := by
    rw [unary, kind_bind, hkind]
    exact hcalled
  have hoperand : operand (budget + 3) .factor c = .error stop c' := hunary
  have hfactor : joined (budget + 4) .factor c = .error stop c' := by
    rw [joined, Sequencing.bind_of_error hoperand]
  have hequality : joined (budget + 10) .equality c = .error stop c' :=
    joined_of_error rfl (joined_of_error rfl (joined_of_error rfl hfactor))
  have hor : joined (budget + 14) .or c = .error stop c' :=
    joined_of_error rfl (joined_of_error rfl hequality)
  rw [expression, current_bind, Sequencing.bind_of_error hor]

/-- A token that no expression begins with is refused for that, and is not
passed over. -/
theorem expression_of_stray {t : Token} (h : t.kind.beginsExpr = false) :
    expression (budget + 16) ⟨t :: ts, n, errors⟩
      = .error (.refused ⟨.noExpression t.kind, t.pos⟩)
          ⟨t :: ts, n, errors⟩ := by
  have hcurrent : (Cursor.mk (t :: ts) n errors).current = t := rfl
  have hliteral : Literal.ofToken? t = none :=
    Option.eq_none_iff_forall_ne_some.2 fun value hvalue => by
      rw [Literal.beginsExpr_of_ofToken? hvalue] at h
      cases h
  refine expression_of_error ?_ ?_
  · rw [hcurrent]
    exact Option.eq_none_iff_forall_ne_some.2 fun op hop => by
      rw [UnaryOp.beginsExpr_of_ofKind? hop] at h
      cases h
  · rw [primary, current_bind, hcurrent, hliteral]
    cases hkind : t.kind <;> rw [hkind] at h <;> first | rfl | cases h

/-- Behind an opening parenthesis there is an expression and the closing
one. -/
theorem primary_leftParen (hopen : opening.kind = .leftParen) :
    primary (budget + 1) ⟨opening :: ts, n, errors⟩
      = (do
        let inner ← expression budget
        if ← takeIf .rightParen then
          return .group (← node opening.pos) inner
        else
          refuse (.openGroup opening.pos) (← current).pos :
            Reader Expr) ⟨ts, n, errors⟩ := by
  have hcurrent : (Cursor.mk (opening :: ts) n errors).current = opening :=
    rfl
  rw [primary, current_bind]
  simp only [hcurrent, Literal.ofToken?_eq_none (.inr hopen), hopen]
  rw [take_cons (by simp [hopen])]

/-- The token at a parenthesis is no operator. -/
private theorem ofKind?_leftParen (hopen : opening.kind = .leftParen) :
    UnaryOp.ofKind? (Cursor.mk (opening :: ts) n errors).current.kind
      = none := by
  rw [kind_current, kindAt_cons, hopen]
  rfl

/-- In front of a token that does not close it, a parenthesis is reported
at that token, however many are opened further out. -/
theorem expression_unclosed {outer : List Token} {mark : Token} {e : Expr}
    (houter : ∀ t ∈ outer, t.kind = .leftParen)
    (hopen : opening.kind = .leftParen)
    (hspells : Spells n ts (.expr .assignment e) n')
    (hstop : StopsExpr mark.kind) (hmark : mark.kind ≠ .rightParen)
    (hbudget : 16 * (outer.length + 1) + (32 * ts.length + 15) ≤ budget) :
    expression budget
        ⟨outer ++ opening :: (ts ++ mark :: rest), n, errors⟩
      = .error (.refused ⟨.openGroup opening.pos, mark.pos⟩)
          ⟨mark :: rest, n', errors⟩ := by
  -- The induction is on the parentheses further out, and each takes its share
  -- of the budget.
  induction outer generalizing budget with
  | nil =>
    simp only [List.length_nil] at hbudget
    obtain ⟨budget, rfl⟩ : ∃ more, budget = more + 16 :=
      ⟨budget - 16, by omega⟩
    have hinner : expression budget ⟨ts ++ mark :: rest, n, errors⟩
        = .ok e ⟨mark :: rest, n', errors⟩ :=
      hspells.accepted budget (mark :: rest) errors
        (by simp only [Phrase.steps]; omega) hstop
    rw [List.nil_append]
    refine expression_of_error (ofKind?_leftParen hopen) ?_
    rw [primary_leftParen hopen, bind_of_ok hinner,
      takeIf_of_ne (show kindAt (mark :: rest) ≠ _ from hmark)]
    rfl
  | cons first outer ih =>
    simp only [List.length_cons] at hbudget
    obtain ⟨budget, rfl⟩ : ∃ more, budget = more + 16 :=
      ⟨budget - 16, by omega⟩
    simp only [List.forall_mem_cons] at houter
    have hinner : expression budget
        ⟨outer ++ opening :: (ts ++ mark :: rest), n, errors⟩
        = .error (.refused ⟨.openGroup opening.pos, mark.pos⟩)
            ⟨mark :: rest, n', errors⟩ :=
      ih houter.2 (by omega)
    rw [List.cons_append]
    refine expression_of_error (ofKind?_leftParen houter.1) ?_
    rw [primary_leftParen houter.1,
      Sequencing.bind_of_error hinner]

/-- What begins as an expression is declared as a statement of one, and so is
what does not begin as anything. -/
theorem declared_eq_exprStmt
    (h : (kindAt ts).beginsDecl = (kindAt ts).beginsExpr) :
    declared (budget + 1) ⟨ts, n, errors⟩
      = exprStmt budget ⟨ts, n, errors⟩ := by
  have hstatement : statement (budget + 1) ⟨ts, n, errors⟩
      = exprStmt budget ⟨ts, n, errors⟩ := by
    rw [statement, kind_mk]
    cases hkind : kindAt ts <;> rw [hkind] at h <;> first | rfl | cases h
  rw [declared, kind_mk, ← hstatement]
  cases hkind : kindAt ts <;> rw [hkind] at h <;> first | rfl | cases h

/-- What no declaration begins with is taken for the start of an expression,
so that is what is missed. -/
theorem declared_of_stray {t : Token} (h : t.kind.beginsDecl = false) :
    declared (budget + 17) ⟨t :: ts, n, errors⟩
      = .error (.refused ⟨.noExpression t.kind, t.pos⟩)
          ⟨t :: ts, n, errors⟩ := by
  have hexpr : t.kind.beginsExpr = false := by
    rw [Bool.eq_false_iff] at h ⊢
    exact fun hbegins => h (TokenKind.beginsDecl_of_beginsExpr hbegins)
  rw [declared_eq_exprStmt (by rw [kindAt_cons, h, hexpr]), exprStmt,
    current_bind, Sequencing.bind_of_error (expression_of_stray hexpr)]

end Reader

/-- A program of one expression statement that is refused has one error, if
nothing is left where reading is taken up again. -/
theorem parse_of_exprStmt_refused {tokens rest : List Token} {n id : Nat}
    {e : SyntaxError} {eof : Token} (heof : eof.kind = .endOfText)
    (hbegins : (kindAt tokens).beginsExpr = true)
    (h : ∀ budget, 32 * tokens.length ≤ budget →
      exprStmt budget ⟨tokens, n, []⟩
        = .error (.refused e) ⟨rest, id, []⟩)
    (hresume : resume rest = [eof]) :
    parse tokens n = ⟨.error ⟨e, []⟩, id⟩ := by
  obtain ⟨budget, hbudget, hle⟩ : ∃ budget,
      nestingBudget tokens = budget + 3 ∧ 32 * tokens.length ≤ budget :=
    ⟨32 * tokens.length + 29, by simp only [nestingBudget]; omega,
      by omega⟩
  have hdeclared : declared (budget + 1) ⟨tokens, n, []⟩
      = .error (.refused e) ⟨rest, id, []⟩ := by
    rw [declared_eq_exprStmt, h budget hle]
    rw [hbegins, TokenKind.beginsDecl_of_beginsExpr hbegins]
  have hstart : kindAt tokens ≠ .endOfText := by
    intro hend
    rw [hend] at hbegins
    cases hbegins
  have hall : declarations endsProgram (nestingBudget tokens)
      ⟨tokens, n, []⟩ = .ok [] ⟨[eof], id, [e]⟩ := by
    rw [hbudget, declarations_of_refused hstart hdeclared, hresume]
    refine declarations_of_ends ?_
    rw [kind_current, kindAt_cons, heof]
    rfl
  rw [parse_eq_of hall]
  rfl

-- ================================================================ parsed

/-- An expression behind opening parentheses begins as one. -/
theorem Spells.beginsExpr_behind {n n' : Nat} {ts openings : List Token}
    {e : Expr} (h : Spells n ts (.expr .assignment e) n')
    (hopen : ∀ t ∈ openings, t.kind = .leftParen) (rest : List Token) :
    (kindAt (openings ++ ts ++ rest)).beginsExpr = true := by
  cases openings with
  | nil =>
    obtain ⟨t, more, rfl, ht⟩ := h.begins rfl
    exact ht
  | cons opening openings =>
    rw [List.cons_append, List.cons_append, kindAt_cons,
      hopen opening List.mem_cons_self]
    rfl

section Parsed

variable {ts openings closings : List Token} {mark eof : Token}
  {n n' : Nat} {e : Expr} (hmark : mark.kind = .semicolon)
  (heof : eof.kind = .endOfText)
  (hspells : Spells n ts (.expr .assignment e) n')
  (hclose : ∀ t ∈ closings, t.kind = .rightParen)

include hmark heof hspells hclose

/-- Parentheses that match are groups. -/
theorem parse_balanced (hopen : ∀ t ∈ openings, t.kind = .leftParen)
    (hlength : openings.length = closings.length) :
    parse (openings ++ ts ++ closings ++ [mark, eof]) n
      = ⟨.ok [.expr
            ⟨n' + openings.length, (tokenAt (openings ++ ts)).pos⟩
            (e.grouped n' openings)],
          n' + openings.length + 1⟩ := by
  have hgrouped := hspells.grouped hopen hclose hlength
  obtain ⟨first, more, hfirst⟩ :
      ∃ first more, openings ++ ts = first :: more := by
    obtain ⟨t, rest, rfl, -⟩ := hspells.begins rfl
    exact List.exists_cons_of_ne_nil (by simp)
  rw [hfirst, List.cons_append] at hgrouped
  have hprogram := Spells.cons (.statement (.expression
    (.exprStmt hgrouped hmark))) .nil
  have htokens : openings ++ ts ++ closings ++ [mark, eof]
      = first :: (more ++ closings ++ [mark]) ++ [] ++ [eof] := by
    simp [hfirst]
  rw [htokens, hfirst]
  exact parse_of_spells heof hprogram

/-- Without closing parentheses enough, the innermost that stays open is
reported at the semicolon. -/
theorem parse_unclosed {outer inner : List Token} {opened : Token}
    (hopen : ∀ t ∈ outer ++ opened :: inner, t.kind = .leftParen)
    (hlength : inner.length = closings.length) :
    parse (outer ++ opened :: inner ++ ts ++ closings ++ [mark, eof]) n
      = ⟨.error ⟨⟨.openGroup opened.pos, mark.pos⟩, []⟩,
          n' + closings.length⟩ := by
  have hbegins := hspells.beginsExpr_behind hopen
    (closings ++ [mark, eof])
  simp only [List.forall_mem_append, List.forall_mem_cons] at hopen
  obtain ⟨houter, hopened, hinner⟩ := hopen
  have hgrouped := hspells.grouped hinner hclose hlength
  rw [hlength] at hgrouped
  rw [← List.append_assoc] at hbegins
  have hresume : resume [mark, eof] = [eof] := by simp [resume, hmark]
  refine parse_of_exprStmt_refused heof hbegins (fun budget hbudget => ?_)
    hresume
  have htokens : outer ++ opened :: inner ++ ts ++ closings ++ [mark, eof]
      = outer ++ opened :: (inner ++ ts ++ closings ++ mark :: [eof]) := by
    simp
  have hexpr : expression budget
      ⟨outer ++ opened :: (inner ++ ts ++ closings ++ mark :: [eof]), n, []⟩
      = .error (.refused ⟨.openGroup opened.pos, mark.pos⟩)
          ⟨[mark, eof], n' + closings.length, []⟩ := by
    refine expression_unclosed houter hopened hgrouped
      (hmark ▸ stopsExpr_semicolon) (by simp [hmark]) ?_
    simp only [List.length_append, List.length_cons] at hbudget ⊢
    omega
  rw [htokens, exprStmt, current_bind, Sequencing.bind_of_error hexpr]

/-- With closing parentheses too many, the first that matches no opening
one is reported. -/
theorem parse_surplus {more : List Token} {surplus : Token}
    (hopen : ∀ t ∈ openings, t.kind = .leftParen)
    (hsurplus : ∀ t ∈ surplus :: more, t.kind = .rightParen)
    (hlength : openings.length = closings.length) :
    parse (openings ++ ts ++ (closings ++ surplus :: more) ++ [mark, eof]) n
      = ⟨.error ⟨⟨.noEnd .expression .rightParen, surplus.pos⟩, []⟩,
          n' + openings.length⟩ := by
  have hbegins := hspells.beginsExpr_behind hopen
    (closings ++ surplus :: more ++ [mark, eof])
  rw [← List.append_assoc] at hbegins
  have hkind := hsurplus surplus List.mem_cons_self
  have hresume : resume (surplus :: more ++ mark :: [eof]) = [eof] := by
    refine resume_semicolon hmark (fun t ht => ?_) (fun t ht => ?_)
    · simp [hsurplus t ht]
    · rw [hsurplus t (List.mem_of_mem_tail ht)]
      rfl
  refine parse_of_exprStmt_refused heof hbegins (fun budget hbudget => ?_)
    hresume
  have htokens : openings ++ ts ++ (closings ++ surplus :: more)
        ++ [mark, eof]
      = openings ++ ts ++ closings
        ++ (surplus :: more ++ mark :: [eof]) := by
    simp
  have hexpr : expression budget
      ⟨openings ++ ts ++ closings ++ (surplus :: more ++ mark :: [eof]), n,
        []⟩
      = .ok (e.grouped n' openings)
          ⟨surplus :: more ++ mark :: [eof], n' + openings.length, []⟩ := by
    refine (hspells.grouped hopen hclose hlength).accepted budget _ [] ?_ ?_
    · simp only [List.length_append, List.length_cons, Phrase.steps]
        at hbudget ⊢
      omega
    · show StopsExpr surplus.kind
      rw [hkind]
      exact stopsExpr_rightParen
  have hother : (Cursor.mk (surplus :: more ++ mark :: [eof])
      (n' + openings.length) []).current.kind ≠ .semicolon := by
    rw [kind_current, List.cons_append, kindAt_cons, hkind]
    decide
  rw [htokens, exprStmt, current_bind, bind_of_ok hexpr, ending, expect_bind,
    if_neg hother, kind_current, List.cons_append, kindAt_cons, hkind]
  rfl

end Parsed

/-- A list is cut at any of its elements. -/
private theorem exists_cut {α : Type} {l : List α} {i : Nat}
    (h : i < l.length) :
    ∃ before x after, l = before ++ x :: after ∧ before.length = i := by
  refine ⟨l.take i, l[i], l.drop (i + 1), ?_,
    List.length_take_of_le (Nat.le_of_lt h)⟩
  rw [List.getElem_cons_drop, List.take_append_drop]

/-- An expression that is read to its end, behind any number of opening
parentheses and before any number of closing ones and a semicolon, is a
statement exactly if the numbers are the same; its tree is then that of the
expression in so many groups. If closing parentheses are missing, the one
error is that a group is open, the innermost that is, met at the semicolon.
If there are too many, the one error is that the expression does not end
where it should, met at the first that matches none before it. -/
theorem parse_parenthesized {ts openings closings : List Token}
    {mark eof : Token} {n n' budget : Nat} {e : Expr}
    (hopen : ∀ t ∈ openings, t.kind = .leftParen)
    (hclose : ∀ t ∈ closings, t.kind = .rightParen)
    (hmark : mark.kind = .semicolon) (heof : eof.kind = .endOfText)
    (hread : expression budget ⟨ts ++ [eof], n, []⟩
      = .ok e ⟨[eof], n', []⟩) :
    let parsed := parse (openings ++ ts ++ closings ++ [mark, eof]) n
    ((∃ program, parsed.result = .ok program) ↔
        openings.length = closings.length) ∧
      (openings.length = closings.length →
        parsed = ⟨.ok [.expr
            ⟨n' + openings.length, (tokenAt (openings ++ ts)).pos⟩
            (e.grouped n' openings)],
          n' + openings.length + 1⟩) ∧
      (closings.length < openings.length → ∃ outer opened inner,
        openings = outer ++ opened :: inner ∧
          inner.length = closings.length ∧
          parsed = ⟨.error ⟨⟨.openGroup opened.pos, mark.pos⟩, []⟩,
            n' + closings.length⟩) ∧
      (openings.length < closings.length → ∃ matched surplus more,
        closings = matched ++ surplus :: more ∧
          matched.length = openings.length ∧
          parsed
            = ⟨.error ⟨⟨.noEnd .expression .rightParen, surplus.pos⟩, []⟩,
                n' + openings.length⟩) := by
  intro parsed
  obtain ⟨-, taken, htaken, hspells⟩ :=
    (readsExprs budget).expression hread rfl
  obtain rfl : ts = taken := List.append_cancel_right htaken
  have hbalanced (hlength : openings.length = closings.length) :=
    parse_balanced hmark heof hspells hclose hopen hlength
  have hunclosed (hlt : closings.length < openings.length) :
      ∃ outer opened inner, openings = outer ++ opened :: inner ∧
        inner.length = closings.length ∧
        parsed = ⟨.error ⟨⟨.openGroup opened.pos, mark.pos⟩, []⟩,
          n' + closings.length⟩ := by
    -- Behind the innermost that stays open, as many are opened as are closed.
    obtain ⟨outer, opened, inner, hcut, houter⟩ :=
      exists_cut (show openings.length - closings.length - 1
        < openings.length by omega)
    have hinner : inner.length = closings.length := by
      have hlength := congrArg List.length hcut
      simp only [List.length_append, List.length_cons] at hlength
      omega
    subst hcut
    exact ⟨outer, opened, inner, rfl, hinner,
      parse_unclosed hmark heof hspells hclose hopen hinner⟩
  have hsurplus (hlt : openings.length < closings.length) :
      ∃ matched surplus more, closings = matched ++ surplus :: more ∧
        matched.length = openings.length ∧
        parsed
          = ⟨.error ⟨⟨.noEnd .expression .rightParen, surplus.pos⟩, []⟩,
              n' + openings.length⟩ := by
    obtain ⟨matched, surplus, more, rfl, hmatched⟩ := exists_cut hlt
    obtain ⟨hclose, hmore⟩ := List.forall_mem_append.1 hclose
    exact ⟨matched, surplus, more, rfl, hmatched,
      parse_surplus hmark heof hspells hclose hopen hmore hmatched.symm⟩
  refine ⟨⟨?_, fun hlength => ?_⟩, hbalanced, hunclosed, hsurplus⟩
  · rintro ⟨program, hprogram⟩
    -- With unequal numbers there is an error and no program.
    rcases Nat.lt_trichotomy closings.length openings.length with
      hlt | heq | hlt
    · obtain ⟨outer, opened, inner, -, -, hparsed⟩ := hunclosed hlt
      rw [hparsed] at hprogram
      cases hprogram
    · exact heq.symm
    · obtain ⟨matched, surplus, more, -, -, hparsed⟩ := hsurplus hlt
      rw [hparsed] at hprogram
      cases hprogram
  · exact ⟨_, congrArg Parsed.result (hbalanced hlength)⟩

/-- An assignment in two pairs of parentheses of which the outer one is not
closed. -/
theorem parse_parenthesized_assignment :
    let place (i : Nat) : Position := ⟨1, i + 1, i⟩
    let openings : List Token :=
      [⟨.leftParen, "(", place 0⟩, ⟨.leftParen, "(", place 1⟩]
    let ts : List Token :=
      [⟨.identifier, "a", place 2⟩, ⟨.equal, "=", place 3⟩,
        ⟨.identifier, "b", place 4⟩]
    let closings : List Token := [⟨.rightParen, ")", place 5⟩]
    let mark : Token := ⟨.semicolon, ";", place 6⟩
    let eof : Token := ⟨.endOfText, "", place 7⟩
    parse (openings ++ ts ++ closings ++ [mark, eof]) 0
      = ⟨.error ⟨⟨.openGroup (place 0), place 6⟩, []⟩, 4⟩ := by
  intro place openings ts closings mark eof
  have hopen : ∀ t ∈ openings, t.kind = .leftParen := by decide
  have hclose : ∀ t ∈ closings, t.kind = .rightParen := by decide
  have hread : expression 20 ⟨ts ++ [eof], 0, []⟩
      = .ok (.assign ⟨2, place 2⟩ "a" (.var ⟨1, place 4⟩ "b"))
          ⟨[eof], 3, []⟩ := rfl
  have hmark : mark.kind = .semicolon := rfl
  have heof : eof.kind = .endOfText := rfl
  obtain ⟨-, -, hunclosed, -⟩ :=
    parse_parenthesized hopen hclose hmark heof hread
  obtain ⟨outer, opened, inner, hcut, hinner, hparsed⟩ :=
    hunclosed (by decide)
  cases outer with
  | nil =>
    injection hcut with hopened _
    subst hopened
    exact hparsed
  | cons t outer =>
    have hlength := congrArg List.length hcut
    simp only [openings, closings, List.length_cons, List.length_append,
      List.length_nil] at hlength hinner
    omega

/-- In equal numbers they are groups; one more is reported where it
stands. -/
example :
    let opening : Token := ⟨.leftParen, "(", .start⟩
    let one : Token := ⟨.number, "1", .start⟩
    let closing (i : Nat) : Token := ⟨.rightParen, ")", ⟨1, i + 1, i⟩⟩
    let mark : Token := ⟨.semicolon, ";", .start⟩
    let eof : Token := ⟨.endOfText, "", .start⟩
    parse [opening, one, closing 2, mark, eof] 0
        = ⟨.ok [.expr ⟨2, .start⟩ (.group ⟨1, .start⟩
            (.literal ⟨0, .start⟩ (.number "1")))], 3⟩ ∧
      parse [opening, one, closing 2, closing 3, mark, eof] 0
        = ⟨.error ⟨⟨.noEnd .expression .rightParen, ⟨1, 4, 3⟩⟩, []⟩, 2⟩ :=
  ⟨rfl, rfl⟩

end Lox
