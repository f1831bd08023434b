/-
What a reader accepts is in the grammar. A reader that ends without a
fault, and on the way without an error recorded, has taken tokens that
spell what it made of them, numbered as the grammar numbers it.

The induction is on the budget, for all readers at once. Two of them go
on from what is read already, the operators of a level and the argument
lists of a callee: they are told the tokens of the left side and extend
them.
-/
import Lox.Proofs.Reading.Laws

namespace Lox

open Reader

-- ========================================================== vocabulary

/-- Without an error, the tokens between two cursors spell a phrase. -/
def Cursor.Reads (c : Cursor) (p : Phrase) (c' : Cursor) : Prop :=
  c.errors = [] ∧
    ∃ ts, c.rest = ts ++ c'.rest ∧ Spells c.nextId ts p c'.nextId

/-- Without an error, the tokens between two cursors extend those of an
expression to those of another one. -/
def Cursor.Extends (c : Cursor) (rank : Rank) (left e : Expr)
    (c' : Cursor) : Prop :=
  c.errors = [] ∧
    ∀ n ts, Spells n ts (.expr rank left) c.nextId →
      ∃ ts', c.rest = ts' ++ c'.rest ∧
        Spells n (ts ++ ts') (.expr rank e) c'.nextId

/-- An expression that nothing is added to is extended by no tokens. -/
theorem Cursor.Extends.refl {c : Cursor} {rank : Rank} {e : Expr}
    (h : c.errors = []) : c.Extends rank e e c :=
  ⟨h, fun _ _ hs => ⟨[], rfl, by simpa using hs⟩⟩

/-- What has been read as the left side is a part of what it is extended
to. -/
theorem Cursor.Reads.extend {c c₁ c' : Cursor} {rank : Rank}
    {left e : Expr} (h : c.Reads (.expr rank left) c₁)
    (hext : c₁.Extends rank left e c') : c.Reads (.expr rank e) c' := by
  obtain ⟨hc, ts, hts, hs⟩ := h
  obtain ⟨ts', hts', hs'⟩ := hext.2 _ _ hs
  exact ⟨hc, ts ++ ts', by rw [hts, hts', List.append_assoc], hs'⟩

/-- A phrase of a tighter rank is one of the looser. -/
theorem Cursor.Reads.lift {c c' : Cursor} {rank tighter : Rank} {e : Expr}
    (hrank : rank.tighter? = some tighter)
    (h : c.Reads (.expr tighter e) c') : c.Reads (.expr rank e) c' := by
  obtain ⟨hc, ts, hts, hs⟩ := h
  exact ⟨hc, ts, hts, .lift hrank hs⟩

/-- An expression that was read has a first token, that at the cursor. -/
theorem Spells.first {c c' : Cursor} {rank : Rank} {e : Expr} {n n' : Nat}
    {ts : List Token} (hs : Spells n ts (.expr rank e) n')
    (hts : c.rest = ts ++ c'.rest) : ∃ rest, ts = c.current :: rest := by
  obtain ⟨t, rest, rfl, -⟩ := hs.begins rfl
  exact ⟨rest, by simp [Cursor.current, hts]⟩

-- ========================================================= expressions

/-- What the readers of expressions accept, within a budget. -/
structure ReadsExprs (budget : Nat) : Prop where
  expression : ∀ {c c' : Cursor} {e : Expr},
    Reader.expression budget c = .ok e c' → c'.errors = [] →
      c.Reads (.expr .assignment e) c'
  joined : ∀ {c c' : Cursor} {ℓ : Level} {e : Expr},
    Reader.joined budget ℓ c = .ok e c' → c'.errors = [] →
      c.Reads (.expr (.level ℓ) e) c'
  joinedMore : ∀ {c c' : Cursor} {ℓ : Level} {left e : Expr},
    Reader.joinedMore budget ℓ left c = .ok e c' → c'.errors = [] →
      c.Extends (.level ℓ) left e c'
  operand : ∀ {c c' : Cursor} {ℓ : Level} {e : Expr},
    Reader.operand budget ℓ c = .ok e c' → c'.errors = [] →
      ∃ tighter, (Rank.level ℓ).tighter? = some tighter ∧
        c.Reads (.expr tighter e) c'
  unary : ∀ {c c' : Cursor} {e : Expr},
    Reader.unary budget c = .ok e c' → c'.errors = [] →
      c.Reads (.expr .unary e) c'
  called : ∀ {c c' : Cursor} {e : Expr},
    Reader.called budget c = .ok e c' → c'.errors = [] →
      c.Reads (.expr .call e) c'
  calledMore : ∀ {c c' : Cursor} {callee e : Expr},
    Reader.calledMore budget callee c = .ok e c' → c'.errors = [] →
      c.Extends .call callee e c'
  arguments : ∀ {c c' : Cursor} {es : List Expr},
    Reader.arguments budget c = .ok es c' → c'.errors = [] →
      es ≠ [] ∧ c.Reads (.args es) c'
  primary : ∀ {c c' : Cursor} {e : Expr},
    Reader.primary budget c = .ok e c' → c'.errors = [] →
      c.Reads (.expr .primary e) c'

section Step

variable {budget : Nat} {c c' : Cursor} {e : Expr}

/-- What an equals sign follows is the target of an assignment, and has to be
a variable. -/
private theorem reads_expression (ih : ReadsExprs budget)
    (h : Reader.expression (budget + 1) c = .ok e c')
    (herr : c'.errors = []) : c.Reads (.expr .assignment e) c' := by
  rw [Reader.expression, current_bind] at h
  obtain ⟨left, c₁, hleft, h⟩ := bind_eq_ok.1 h
  rw [kind_bind, run_ite] at h
  split at h
  · next hsign =>
    rw [take_bind] at h
    obtain ⟨value, c₂, hvalue, h⟩ := bind_eq_ok.1 h
    split at h
    · next target name =>
      rw [node_bind, pure_eq_ok] at h
      obtain ⟨rfl, rfl⟩ := h
      obtain ⟨herr₁, ts₂, hts₂, hs₂⟩ := ih.expression hvalue herr
      rw [Cursor.errors_advance] at herr₁
      rw [Cursor.nextId_advance] at hs₂
      obtain ⟨hc, ts₁, hts₁, hs₁⟩ := ih.joined hleft herr₁
      obtain ⟨rest, rfl⟩ := hs₁.first hts₁
      refine ⟨hc, c.current :: (rest ++ c₁.current :: ts₂), ?_,
        .assign hs₁ hsign hs₂⟩
      rw [hts₁, Cursor.rest_of_kind hsign (by decide), hts₂]
      simp
    · simp at h
  · obtain ⟨rfl, rfl⟩ := pure_eq_ok.1 h
    exact (ih.joined hleft herr).lift rfl

/-- The first operand is read, and then extended operator by operator. -/
private theorem reads_joined (ih : ReadsExprs budget) {ℓ : Level}
    (h : Reader.joined (budget + 1) ℓ c = .ok e c')
    (herr : c'.errors = []) : c.Reads (.expr (.level ℓ) e) c' := by
  rw [Reader.joined] at h
  obtain ⟨left, c₁, hleft, hmore⟩ := bind_eq_ok.1 h
  have hext := ih.joinedMore hmore herr
  obtain ⟨tighter, hrank, hreads⟩ := ih.operand hleft hext.1
  exact (hreads.lift hrank).extend hext

/-- Each round of the loop puts an operator and an operand behind the left
side, so operators of a level group to the left. -/
private theorem extends_joinedMore (ih : ReadsExprs budget) {ℓ : Level}
    {left : Expr}
    (h : Reader.joinedMore (budget + 1) ℓ left c = .ok e c')
    (herr : c'.errors = []) : c.Extends (.level ℓ) left e c' := by
  rw [Reader.joinedMore, kind_bind] at h
  cases hop : ℓ.connective? c.current.kind with
  | none =>
    rw [hop] at h
    obtain ⟨rfl, rfl⟩ := pure_eq_ok.1 h
    exact .refl herr
  | some op =>
    simp only [hop, take_bind] at h
    obtain ⟨right, c₁, hright, h⟩ := bind_eq_ok.1 h
    rw [node_bind] at h
    -- That nothing was reported is known of the end, so the last part comes
    -- first.
    obtain ⟨herr₁, hext⟩ := ih.joinedMore h herr
    obtain ⟨tighter, hrank, herr₂, ts₁, hts₁, hs₁⟩ := ih.operand hright herr₁
    rw [Cursor.errors_advance] at herr₂
    rw [Cursor.nextId_advance] at hs₁
    refine ⟨herr₂, fun n ts hs => ?_⟩
    obtain ⟨ts₂, hts₂, hs₂⟩ := hext n _ (.join hs hop hrank hs₁)
    have hend : c.current.kind ≠ .endOfText := by
      intro hend
      rw [hend] at hop
      cases ℓ <;> simp [Level.connective?] at hop
    refine ⟨c.current :: (ts₁ ++ ts₂), ?_, by simpa using hs₂⟩
    rw [Cursor.rest_eq_current_cons_advance hend, hts₁, hts₂]
    simp

/-- An operand of a level is an expression of the next tighter rank. -/
private theorem reads_operand (ih : ReadsExprs budget) {ℓ : Level}
    (h : Reader.operand (budget + 1) ℓ c = .ok e c')
    (herr : c'.errors = []) :
    ∃ tighter, (Rank.level ℓ).tighter? = some tighter ∧
      c.Reads (.expr tighter e) c' := by
  rw [Reader.operand] at h
  cases htighter : ℓ.tighter? with
  | some tighter =>
    rw [htighter] at h
    exact ⟨.level tighter, by simp [Rank.tighter?, htighter],
      ih.joined h herr⟩
  | none =>
    rw [htighter] at h
    exact ⟨.unary, by simp [Rank.tighter?, htighter], ih.unary h herr⟩

/-- A sign in front stands for an operator with what is behind it as its
operand. -/
private theorem reads_unary (ih : ReadsExprs budget)
    (h : Reader.unary (budget + 1) c = .ok e c')
    (herr : c'.errors = []) : c.Reads (.expr .unary e) c' := by
  rw [Reader.unary, kind_bind] at h
  cases hop : UnaryOp.ofKind? c.current.kind with
  | none =>
    rw [hop] at h
    exact (ih.called h herr).lift rfl
  | some op =>
    simp only [hop, take_bind] at h
    obtain ⟨inner, c₁, hinner, h⟩ := bind_eq_ok.1 h
    rw [node_bind, pure_eq_ok] at h
    obtain ⟨rfl, rfl⟩ := h
    obtain ⟨herr₁, ts, hts, hs⟩ := ih.unary hinner herr
    rw [Cursor.errors_advance] at herr₁
    rw [Cursor.nextId_advance] at hs
    have hend : c.current.kind ≠ .endOfText := by
      intro hend
      simp [hend, UnaryOp.ofKind?] at hop
    refine ⟨herr₁, c.current :: ts, ?_, .unary hop hs⟩
    rw [Cursor.rest_eq_current_cons_advance hend, hts]
    rfl

/-- The callee is read, and then extended list by list. -/
private theorem reads_called (ih : ReadsExprs budget)
    (h : Reader.called (budget + 1) c = .ok e c')
    (herr : c'.errors = []) : c.Reads (.expr .call e) c' := by
  rw [Reader.called] at h
  obtain ⟨callee, c₁, hcallee, hmore⟩ := bind_eq_ok.1 h
  have hext := ih.calledMore hmore herr
  exact ((ih.primary hcallee hext.1).lift rfl).extend hext

/-- One argument list behind a callee, and what goes on behind it. -/
private theorem extends_call (ih : ReadsExprs budget) {callee : Expr}
    {args : List Expr} {c₁ : Cursor} (hopen : c.current.kind = .leftParen)
    (hargs : c.advance.Reads (.args args) c₁)
    (hclose : c₁.current.kind = .rightParen)
    (h : Reader.calledMore budget
      (.call ⟨c₁.nextId + 1, c.current.pos⟩ c₁.nextId callee args)
      { c₁.advance with nextId := c₁.nextId + 2 } = .ok e c')
    (herr : c'.errors = []) : c.Extends .call callee e c' := by
  obtain ⟨hc, ts₁, hts₁, hs₁⟩ := hargs
  rw [Cursor.errors_advance] at hc
  rw [Cursor.nextId_advance] at hs₁
  obtain ⟨-, hext⟩ := ih.calledMore h herr
  refine ⟨hc, fun n ts hs => ?_⟩
  obtain ⟨ts₂, hts₂, hs₂⟩ := hext n _ (.call hs hopen hs₁ hclose)
  refine ⟨c.current :: (ts₁ ++ c₁.current :: ts₂), ?_, by simpa using hs₂⟩
  rw [Cursor.rest_of_kind hopen (by decide), hts₁,
    Cursor.rest_of_kind hclose (by decide)]
  simpa using hts₂

/-- Each round puts a list of arguments behind the callee. -/
private theorem extends_calledMore (ih : ReadsExprs budget) {callee : Expr}
    (h : Reader.calledMore (budget + 1) callee c = .ok e c')
    (herr : c'.errors = []) : c.Extends .call callee e c' := by
  rw [Reader.calledMore, kind_bind, run_ite] at h
  split at h
  · next hopen =>
    rw [take_bind, kind_bind, run_ite] at h
    split at h
    · rw [pure_bind, expect_bind_eq_ok] at h
      obtain ⟨hclose, h⟩ := h
      rw [node_bind, node_bind] at h
      have herr₁ := (ih.calledMore h herr).1
      have hargs : c.advance.Reads (.args []) c.advance :=
        ⟨by simpa using herr₁, [], rfl, .noArgs⟩
      exact extends_call ih hopen hargs hclose (by simpa using h) herr
    · obtain ⟨args, c₁, hargs, h⟩ := bind_eq_ok.1 h
      rw [expect_bind_eq_ok] at h
      obtain ⟨hclose, h⟩ := h
      rw [node_bind, node_bind] at h
      have herr₁ := (ih.calledMore h herr).1
      have hread := (ih.arguments hargs (by simpa using herr₁)).2
      exact extends_call ih hopen hread hclose (by simpa using h) herr
  · obtain ⟨rfl, rfl⟩ := pure_eq_ok.1 h
    exact .refl herr

/-- Arguments that are read are one at least, for a list that is empty is told
by its closing parenthesis before. -/
private theorem reads_arguments (ih : ReadsExprs budget) {es : List Expr}
    (h : Reader.arguments (budget + 1) c = .ok es c')
    (herr : c'.errors = []) : es ≠ [] ∧ c.Reads (.args es) c' := by
  rw [Reader.arguments] at h
  obtain ⟨first, c₁, hfirst, h⟩ := bind_eq_ok.1 h
  rw [takeIf_bind] at h
  split at h
  · next hcomma =>
    obtain ⟨others, c₂, hothers, h⟩ := bind_eq_ok.1 h
    obtain ⟨rfl, rfl⟩ := pure_eq_ok.1 h
    obtain ⟨hne, herr₁, ts₂, hts₂, hs₂⟩ := ih.arguments hothers herr
    rw [Cursor.errors_advance] at herr₁
    rw [Cursor.nextId_advance] at hs₂
    obtain ⟨hc, ts₁, hts₁, hs₁⟩ := ih.expression hfirst herr₁
    obtain ⟨e', es', rfl⟩ := List.exists_cons_of_ne_nil hne
    refine ⟨by simp, hc, ts₁ ++ c₁.current :: ts₂, ?_,
      .moreArgs hs₁ hcomma hs₂⟩
    rw [hts₁, Cursor.rest_of_kind hcomma (by decide), hts₂]
    simp
  · obtain ⟨rfl, rfl⟩ := pure_eq_ok.1 h
    obtain ⟨hc, ts, hts, hs⟩ := ih.expression hfirst herr
    exact ⟨by simp, hc, ts, hts, .oneArg hs⟩

/-- A primary expression is the one that its first token tells. -/
private theorem reads_primary (ih : ReadsExprs budget)
    (h : Reader.primary (budget + 1) c = .ok e c')
    (herr : c'.errors = []) : c.Reads (.expr .primary e) c' := by
  rw [Reader.primary, current_bind] at h
  cases hvalue : Literal.ofToken? c.current with
  | some value =>
    simp only [hvalue, take_bind, node_bind, pure_eq_ok] at h
    obtain ⟨rfl, rfl⟩ := h
    have hend : c.current.kind ≠ .endOfText := by
      intro hend
      simp [Literal.ofToken?, hend] at hvalue
    refine ⟨by simpa using herr, [c.current],
      Cursor.rest_eq_current_cons_advance hend, ?_⟩
    simpa using Spells.literal hvalue
  | none =>
    simp only [hvalue] at h
    cases hkind : c.current.kind with
    | identifier =>
      simp only [hkind, take_bind, node_bind, pure_eq_ok] at h
      obtain ⟨rfl, rfl⟩ := h
      refine ⟨by simpa using herr, [c.current],
        Cursor.rest_of_kind hkind (by decide), ?_⟩
      simpa using Spells.var hkind
    | leftParen =>
      simp only [hkind, take_bind] at h
      obtain ⟨inner, c₁, hinner, h⟩ := bind_eq_ok.1 h
      rw [takeIf_bind] at h
      split at h
      · next hclose =>
        simp only [↓reduceIte, node_bind, pure_eq_ok] at h
        obtain ⟨rfl, rfl⟩ := h
        obtain ⟨hc, ts, hts, hs⟩ :=
          ih.expression hinner (by simpa using herr)
        rw [Cursor.errors_advance] at hc
        rw [Cursor.nextId_advance] at hs
        refine ⟨hc, c.current :: (ts ++ [c₁.current]), ?_,
          by simpa using Spells.group hkind hs hclose⟩
        rw [Cursor.rest_of_kind hkind (by decide), hts,
          Cursor.rest_of_kind hclose (by decide)]
        simp
      · simp at h
    | _ => simp [hkind] at h

end Step

/-- All readers of expressions take what spells them, by induction on the
budget. -/
theorem readsExprs (budget : Nat) : ReadsExprs budget := by
  induction budget with
  | zero =>
      constructor <;> intros <;>
        simp_all [Reader.expression, Reader.joined, Reader.joinedMore,
          Reader.operand, Reader.unary, Reader.called, Reader.calledMore,
          Reader.arguments, Reader.primary]
  | succ budget ih =>
      exact {
        expression := reads_expression ih
        joined := reads_joined ih
        joinedMore := extends_joinedMore ih
        operand := reads_operand ih
        unary := reads_unary ih
        called := reads_called ih
        calledMore := extends_calledMore ih
        arguments := reads_arguments ih
        primary := reads_primary ih }

-- ===================================================== simple statements

section Simple

variable {budget : Nat} {c c' : Cursor} {s : Stmt}

/-- Behind `var` comes a name, then an initializer if there is an equals
sign. -/
theorem reads_varDecl (hword : c.current.kind = .kwVar)
    (h : Reader.varDecl budget c = .ok s c') (herr : c'.errors = []) :
    c.Reads (.varDecl s) c' := by
  rw [Reader.varDecl, take_bind, expect_bind_eq_ok, takeIf_bind] at h
  obtain ⟨hname, h⟩ := h
  have hword' := Cursor.rest_of_kind hword (by decide)
  have hname' := Cursor.rest_of_kind hname (by decide)
  split at h
  · next hsign =>
    simp only [↓reduceIte, Reader.ending] at h
    obtain ⟨init, c₁, hinit, h⟩ := bind_eq_ok.1 h
    obtain ⟨e, he, rfl⟩ := map_eq_ok.1 hinit
    rw [expect_bind_eq_ok] at h
    obtain ⟨hend, h⟩ := h
    rw [node_bind, pure_eq_ok] at h
    obtain ⟨rfl, rfl⟩ := h
    obtain ⟨hc, ts, hts, hs⟩ :=
      (readsExprs budget).expression he (by simpa using herr)
    simp only [Cursor.errors_advance] at hc
    simp only [Cursor.nextId_advance] at hs
    refine ⟨hc, c.current :: c.advance.current
      :: c.advance.advance.current :: (ts ++ [c₁.current]), ?_,
      by simpa using Spells.varInit hword hname hsign hs hend⟩
    rw [hword', hname', Cursor.rest_of_kind hsign (by decide), hts,
      Cursor.rest_of_kind hend (by decide)]
    simp
  · simp only [Bool.false_eq_true, ↓reduceIte, Reader.ending,
      pure_bind] at h
    rw [expect_bind_eq_ok] at h
    obtain ⟨hend, h⟩ := h
    rw [node_bind, pure_eq_ok] at h
    obtain ⟨rfl, rfl⟩ := h
    refine ⟨by simpa using herr, [c.current, c.advance.current,
      c.advance.advance.current], ?_,
      by simpa using Spells.varDecl hword hname hend⟩
    rw [hword', hname', Cursor.rest_of_kind hend (by decide)]
    rfl

/-- An expression as a statement has its node at its first token. -/
theorem reads_exprStmt (h : Reader.exprStmt budget c = .ok s c')
    (herr : c'.errors = []) : c.Reads (.exprStmt s) c' := by
  rw [Reader.exprStmt, current_bind] at h
  obtain ⟨e, c₁, he, h⟩ := bind_eq_ok.1 h
  rw [Reader.ending, expect_bind_eq_ok] at h
  obtain ⟨hend, h⟩ := h
  rw [node_bind, pure_eq_ok] at h
  obtain ⟨rfl, rfl⟩ := h
  obtain ⟨hc, ts, hts, hs⟩ :=
    (readsExprs budget).expression he (by simpa using herr)
  obtain ⟨rest, rfl⟩ := hs.first hts
  refine ⟨hc, c.current :: (rest ++ [c₁.current]), ?_,
    by simpa using Spells.exprStmt hs hend⟩
  rw [hts, Cursor.rest_of_kind hend (by decide)]
  simp

/-- Behind `print` comes an expression. -/
theorem reads_printStmt (hword : c.current.kind = .kwPrint)
    (h : Reader.printStmt budget c = .ok s c') (herr : c'.errors = []) :
    c.Reads (.stmt false s) c' := by
  rw [Reader.printStmt, take_bind] at h
  obtain ⟨e, c₁, he, h⟩ := bind_eq_ok.1 h
  rw [Reader.ending, expect_bind_eq_ok] at h
  obtain ⟨hend, h⟩ := h
  rw [node_bind, pure_eq_ok] at h
  obtain ⟨rfl, rfl⟩ := h
  obtain ⟨hc, ts, hts, hs⟩ :=
    (readsExprs budget).expression he (by simpa using herr)
  rw [Cursor.errors_advance] at hc
  rw [Cursor.nextId_advance] at hs
  refine ⟨hc, c.current :: (ts ++ [c₁.current]), ?_,
    by simpa using Spells.print hword hs hend⟩
  rw [Cursor.rest_of_kind hword (by decide), hts,
    Cursor.rest_of_kind hend (by decide)]
  simp

/-- The end of a return statement, behind its value. -/
private theorem reads_ret {e : Option Expr} {c₁ : Cursor}
    (hword : c.current.kind = .kwReturn)
    (he : c.advance.Reads (.maybe e) c₁)
    (hend : c₁.current.kind = .semicolon) :
    c.Reads (.stmt false (.ret ⟨c₁.nextId, c.current.pos⟩ e))
      { c₁.advance with nextId := c₁.nextId + 1 } := by
  obtain ⟨hc, ts, hts, hs⟩ := he
  rw [Cursor.errors_advance] at hc
  rw [Cursor.nextId_advance] at hs
  refine ⟨hc, c.current :: (ts ++ [c₁.current]), ?_, .ret hword hs hend⟩
  rw [Cursor.rest_of_kind hword (by decide), hts,
    Cursor.rest_of_kind hend (by decide)]
  simp

/-- Behind `return` comes a semicolon or an expression. -/
theorem reads_retStmt (hword : c.current.kind = .kwReturn)
    (h : Reader.retStmt budget c = .ok s c') (herr : c'.errors = []) :
    c.Reads (.stmt false s) c' := by
  rw [Reader.retStmt, take_bind, kind_bind, run_ite] at h
  split at h
  · rw [pure_bind, Reader.ending, expect_bind_eq_ok] at h
    obtain ⟨hend, h⟩ := h
    rw [node_bind, pure_eq_ok] at h
    obtain ⟨rfl, rfl⟩ := h
    have he : c.advance.Reads (.maybe none) c.advance :=
      ⟨by simpa using herr, [], rfl, .absent⟩
    simpa using reads_ret hword he hend
  · obtain ⟨value, c₁, hvalue, h⟩ := bind_eq_ok.1 h
    obtain ⟨e, he, rfl⟩ := map_eq_ok.1 hvalue
    rw [Reader.ending, expect_bind_eq_ok] at h
    obtain ⟨hend, h⟩ := h
    rw [node_bind, pure_eq_ok] at h
    obtain ⟨rfl, rfl⟩ := h
    obtain ⟨hc, ts, hts, hs⟩ :=
      (readsExprs budget).expression he (by simpa using herr)
    simpa using reads_ret hword ⟨hc, ts, hts, .present hs⟩ hend

/-- Parameters that are read are one at least, each with its place. -/
theorem reads_parameters : ∀ {budget : Nat} {c c' : Cursor}
    {names : List Name}, Reader.parameters budget c = .ok names c' →
      c'.errors = [] → names ≠ [] ∧ c.Reads (.params names) c' := by
  intro budget
  induction budget with
  | zero => intro c c' names h _; simp [Reader.parameters] at h
  | succ budget ih =>
      intro c c' names h herr
      rw [Reader.parameters, expect_bind_eq_ok, takeIf_bind] at h
      obtain ⟨hname, h⟩ := h
      have hname' := Cursor.rest_of_kind hname (by decide)
      split at h
      · next hcomma =>
        simp only [↓reduceIte] at h
        obtain ⟨others, c₁, hothers, h⟩ := bind_eq_ok.1 h
        obtain ⟨rfl, rfl⟩ := pure_eq_ok.1 h
        obtain ⟨hne, hc, ts, hts, hs⟩ := ih hothers herr
        simp only [Cursor.errors_advance] at hc
        simp only [Cursor.nextId_advance] at hs
        obtain ⟨name, others, rfl⟩ := List.exists_cons_of_ne_nil hne
        refine ⟨by simp, hc, c.current :: c.advance.current :: ts, ?_,
          .moreParams hname hcomma hs⟩
        rw [hname', Cursor.rest_of_kind hcomma (by decide), hts]
        rfl
      · obtain ⟨rfl, rfl⟩ := pure_eq_ok.1 h
        refine ⟨by simp, by simpa using herr, [c.current], hname', ?_⟩
        simpa using Spells.oneParam hname

-- ======================================================== for, in parts

/-- A first clause that is no semicolon is a declaration or an expression. -/
theorem reads_forInit {init : Option Stmt}
    (h : Reader.forInit budget c = .ok init c') (herr : c'.errors = []) :
    c.Reads (.clause init) c' := by
  rw [Reader.forInit, takeIf_bind] at h
  split at h
  · next hend =>
    obtain ⟨rfl, rfl⟩ := pure_eq_ok.1 h
    refine ⟨by simpa using herr, [c.current],
      Cursor.rest_of_kind hend (by decide), ?_⟩
    simpa using Spells.noClause hend
  · simp only [Bool.false_eq_true, ↓reduceIte, kind_bind, run_ite] at h
    split at h
    · next hword =>
      obtain ⟨s, c₁, hs, h⟩ := bind_eq_ok.1 h
      obtain ⟨rfl, rfl⟩ := pure_eq_ok.1 h
      obtain ⟨hc, ts, hts, hs⟩ := reads_varDecl hword hs herr
      exact ⟨hc, ts, hts, .varClause hs⟩
    · obtain ⟨s, c₁, hs, h⟩ := bind_eq_ok.1 h
      obtain ⟨rfl, rfl⟩ := pure_eq_ok.1 h
      obtain ⟨hc, ts, hts, hs⟩ := reads_exprStmt hs herr
      exact ⟨hc, ts, hts, .exprClause hs⟩

/-- A second clause ends before a semicolon, which is a part of the clause in
the grammar. -/
theorem reads_forTest {test : Expr} {c₁ : Cursor}
    (h : Reader.forTest budget c = .ok test c₁)
    (hend : c₁.current.kind = .semicolon) (herr : c₁.errors = []) :
    c.Reads (.test test) c₁.advance := by
  rw [Reader.forTest, current_bind, run_ite] at h
  split at h
  · next hend' =>
    rw [node_bind, pure_eq_ok] at h
    obtain ⟨rfl, rfl⟩ := h
    refine ⟨herr, [c.current], ?_, by simpa using Spells.noTest hend'⟩
    simpa using Cursor.rest_of_kind hend' (by decide)
  · obtain ⟨hc, ts, hts, hs⟩ := (readsExprs budget).expression h herr
    refine ⟨hc, ts ++ [c₁.current], ?_, by simpa using Spells.someTest hs hend⟩
    rw [hts, Cursor.rest_of_kind hend (by decide)]
    simp

/-- A third clause that is no closing parenthesis is an expression. -/
theorem reads_forStep {step : Option Expr}
    (h : Reader.forStep budget c = .ok step c') (herr : c'.errors = []) :
    c.Reads (.maybe step) c' := by
  rw [Reader.forStep, kind_bind, run_ite] at h
  split at h
  · obtain ⟨rfl, rfl⟩ := pure_eq_ok.1 h
    exact ⟨herr, [], rfl, .absent⟩
  · obtain ⟨e, c₁, he, h⟩ := bind_eq_ok.1 h
    obtain ⟨rfl, rfl⟩ := pure_eq_ok.1 h
    obtain ⟨hc, ts, hts, hs⟩ := (readsExprs budget).expression he herr
    exact ⟨hc, ts, hts, .present hs⟩

/-- What a `for` stands for is built without a look at the tokens. -/
theorem run_forTree (pos : Position) (init : Option Stmt) (test : Expr)
    (step : Option Expr) (body : Stmt) (c : Cursor) :
    (Reader.forBody pos step body >>= Reader.forLoop pos init test) c
      = .ok (forTree pos init test step body c.nextId).1
          { c with
            nextId := (forTree pos init test step body c.nextId).2 } := by
  cases step <;> cases init <;> rfl

end Simple

-- ==================================================== nested statements

/-- Without an error, the tokens between two cursors spell a statement,
and no `else` that would be a part of it was left standing. -/
def Cursor.ReadsStmt (c : Cursor) (s : Stmt) (c' : Cursor) : Prop :=
  ∃ isOpen, c.Reads (.stmt isOpen s) c' ∧
    (isOpen = true → c'.current.kind ≠ .kwElse)

/-- A statement that is closed may stand before an `else`. -/
theorem Cursor.ReadsStmt.closed {c c' : Cursor} {s : Stmt}
    (h : c.Reads (.stmt false s) c') : c.ReadsStmt s c' :=
  ⟨false, h, nofun⟩

/-- What the readers of statements accept, within a budget. -/
structure ReadsStmts (budget : Nat) : Prop where
  declarations : ∀ {ends : TokenKind → Bool} {c c' : Cursor}
    {ss : List Stmt}, Reader.declarations ends budget c = .ok ss c' →
      c'.errors = [] →
        c.Reads (.decls ss) c' ∧ ends c'.current.kind = true
  declaration : ∀ {c c' : Cursor} {s : Option Stmt},
    Reader.declaration budget c = .ok s c' → c'.errors = [] →
      ∃ s', s = some s' ∧ c.Reads (.decl s') c'
  funDecl : ∀ {c c' : Cursor} {s : Stmt},
    Reader.funDecl budget c = .ok s c' → c'.errors = [] →
      c.current.kind = .kwFun → c.Reads (.decl s) c'
  statement : ∀ {c c' : Cursor} {s : Stmt},
    Reader.statement budget c = .ok s c' → c'.errors = [] →
      c.ReadsStmt s c'
  condStmt : ∀ {c c' : Cursor} {s : Stmt},
    Reader.condStmt budget c = .ok s c' → c'.errors = [] →
      c.current.kind = .kwIf → c.ReadsStmt s c'
  loopStmt : ∀ {c c' : Cursor} {s : Stmt},
    Reader.loopStmt budget c = .ok s c' → c'.errors = [] →
      c.current.kind = .kwWhile → c.ReadsStmt s c'
  forStmt : ∀ {c c' : Cursor} {s : Stmt},
    Reader.forStmt budget c = .ok s c' → c'.errors = [] →
      c.current.kind = .kwFor → c.ReadsStmt s c'
  braced : ∀ {c c' : Cursor} {node : Node} {body : List Stmt},
    Reader.braced budget c = .ok (node, body) c' → c'.errors = [] →
      c.current.kind = .leftBrace → c.Reads (.braced node body) c'

section Step

variable {budget : Nat} {c c' : Cursor} {s : Stmt}

/-- Declarations are read up to a token that ends them. Since no error was
recorded, none of them was dropped. -/
private theorem reads_declarations (ih : ReadsStmts budget)
    {ends : TokenKind → Bool} {ss : List Stmt}
    (h : Reader.declarations ends (budget + 1) c = .ok ss c')
    (herr : c'.errors = []) :
    c.Reads (.decls ss) c' ∧ ends c'.current.kind = true := by
  rw [Reader.declarations, kind_bind, run_ite] at h
  split at h
  · next hends =>
    obtain ⟨rfl, rfl⟩ := pure_eq_ok.1 h
    exact ⟨⟨herr, [], rfl, .nil⟩, hends⟩
  · obtain ⟨first, c₁, hfirst, h⟩ := bind_eq_ok.1 h
    obtain ⟨others, c₂, hothers, h⟩ := bind_eq_ok.1 h
    obtain ⟨rfl, rfl⟩ := pure_eq_ok.1 h
    obtain ⟨⟨herr₁, ts₂, hts₂, hs₂⟩, hends⟩ := ih.declarations hothers herr
    obtain ⟨s, rfl, hc, ts₁, hts₁, hs₁⟩ := ih.declaration hfirst herr₁
    refine ⟨⟨hc, ts₁ ++ ts₂, ?_, .cons hs₁ hs₂⟩, hends⟩
    rw [hts₁, hts₂, List.append_assoc]

/-- A recovery leaves an error behind, so without one there was none. -/
private theorem recovering_eq_ok {reader : Reader Stmt}
    {s : Option Stmt} (h : Reader.recovering reader c = .ok s c')
    (herr : c'.errors = []) :
    ∃ s', s = some s' ∧ reader c = .ok s' c' := by
  unfold Reader.recovering at h
  split at h
  · next s' c₁ hread =>
    injection h with hs hc
    exact ⟨s', hs.symm, by rw [hread, hc]⟩
  · injection h with _ hc
    simp [← hc] at herr
  · cases h

/-- Without an error, a declaration is the one that its first word tells. -/
private theorem reads_declaration (ih : ReadsStmts budget)
    {s : Option Stmt} (h : Reader.declaration (budget + 1) c = .ok s c')
    (herr : c'.errors = []) :
    ∃ s', s = some s' ∧ c.Reads (.decl s') c' := by
  rw [Reader.declaration] at h
  obtain ⟨s', rfl, hread⟩ := recovering_eq_ok h herr
  clear h
  rw [kind_bind] at hread
  have hstatement (h : Reader.statement budget c = .ok s' c') :
      c.Reads (.decl s') c' := by
    obtain ⟨isOpen, ⟨hc, ts, hts, hs⟩, -⟩ := ih.statement h herr
    exact ⟨hc, ts, hts, .statement hs⟩
  refine ⟨s', rfl, ?_⟩
  cases hkind : c.current.kind with
  | kwFun =>
    simp only [hkind] at hread
    exact ih.funDecl hread herr hkind
  | kwVar =>
    simp only [hkind] at hread
    obtain ⟨hc, ts, hts, hs⟩ := reads_varDecl hkind hread herr
    exact ⟨hc, ts, hts, .variable hs⟩
  | _ => exact hstatement (by simpa only [hkind] using hread)

/-- The body of a function, behind its parameters. -/
private theorem reads_body (ih : ReadsStmts budget) {params : List Name}
    {c₁ : Cursor} (hword : c.current.kind = .kwFun)
    (hname : c.advance.current.kind = .identifier)
    (hopen : c.advance.advance.current.kind = .leftParen)
    (hparams : c₁.errors = [] →
      c.advance.advance.advance.Reads (.params params) c₁)
    (hclose : c₁.current.kind = .rightParen)
    (hbrace : c₁.advance.current.kind = .leftBrace)
    {node : Node} {body : List Stmt} {c₂ : Cursor}
    (hbody : Reader.braced budget c₁.advance = .ok (node, body) c₂)
    (herr : c₂.errors = []) :
    c.Reads (.decl (.funDecl ⟨c₂.nextId + 1, c.current.pos⟩
      ⟨c.advance.current.lexeme, c.advance.current.pos⟩ c₂.nextId params
      node body)) { c₂ with nextId := c₂.nextId + 2 } := by
  obtain ⟨herr₁, ts₂, hts₂, hs₂⟩ := ih.braced hbody herr hbrace
  rw [Cursor.errors_advance] at herr₁
  rw [Cursor.nextId_advance] at hs₂
  obtain ⟨hc, ts₁, hts₁, hs₁⟩ := hparams herr₁
  simp only [Cursor.errors_advance] at hc
  simp only [Cursor.nextId_advance] at hs₁
  refine ⟨hc, c.current :: c.advance.current :: c.advance.advance.current
    :: (ts₁ ++ c₁.current :: ts₂), ?_,
    .function hword hname hopen hs₁ hclose hs₂⟩
  rw [Cursor.rest_of_kind hword (by decide),
    Cursor.rest_of_kind hname (by decide),
    Cursor.rest_of_kind hopen (by decide), hts₁,
    Cursor.rest_of_kind hclose (by decide), hts₂]
  simp

/-- A function is a name, its parameters and a body in braces. -/
private theorem reads_funDecl (ih : ReadsStmts budget)
    (h : Reader.funDecl (budget + 1) c = .ok s c') (herr : c'.errors = [])
    (hword : c.current.kind = .kwFun) : c.Reads (.decl s) c' := by
  rw [funDecl_succ, take_bind, expect_bind_eq_ok, expect_bind_eq_ok] at h
  obtain ⟨hname, hopen, h⟩ := h
  obtain ⟨params, c₁, hparams, h⟩ : ∃ params c₁,
      (c₁.errors = [] →
        c.advance.advance.advance.Reads (.params params) c₁) ∧
      functionRest budget c.current c.advance.current params c₁
        = .ok s c' := by
    rw [kind_bind, run_ite] at h
    split at h
    · exact ⟨[], _, fun herr => ⟨herr, [], rfl, .noParams⟩, h⟩
    · obtain ⟨params, c₁, hparams, h⟩ := bind_eq_ok.1 h
      exact ⟨params, c₁, fun herr => (reads_parameters hparams herr).2, h⟩
  rw [functionRest, expect_bind_eq_ok, current_bind, run_ite] at h
  obtain ⟨hclose, h⟩ := h
  split at h
  · next hbrace =>
    obtain ⟨⟨node, body⟩, c₂, hbody, h⟩ := bind_eq_ok.1 h
    simp only [node_bind, pure_eq_ok] at h
    obtain ⟨rfl, rfl⟩ := h
    exact reads_body ih hword hname hopen hparams hclose hbrace hbody herr
  · simp at h

/-- A statement is the one that its first word tells, and an expression
without one. -/
private theorem reads_statement (ih : ReadsStmts budget)
    (h : Reader.statement (budget + 1) c = .ok s c')
    (herr : c'.errors = []) : c.ReadsStmt s c' := by
  rw [Reader.statement, kind_bind] at h
  have hexpr (h : Reader.exprStmt budget c = .ok s c') :
      c.ReadsStmt s c' := by
    obtain ⟨hc, ts, hts, hs⟩ := reads_exprStmt h herr
    exact .closed ⟨hc, ts, hts, .expression hs⟩
  cases hkind : c.current.kind with
  | kwFor => exact ih.forStmt (by simpa only [hkind] using h) herr hkind
  | kwIf => exact ih.condStmt (by simpa only [hkind] using h) herr hkind
  | kwPrint =>
    exact .closed (reads_printStmt hkind (by simpa only [hkind] using h) herr)
  | kwReturn =>
    exact .closed (reads_retStmt hkind (by simpa only [hkind] using h) herr)
  | kwWhile => exact ih.loopStmt (by simpa only [hkind] using h) herr hkind
  | leftBrace =>
    simp only [hkind] at h
    obtain ⟨⟨node, body⟩, c₁, hbody, h⟩ := bind_eq_ok.1 h
    obtain ⟨rfl, rfl⟩ := pure_eq_ok.1 h
    obtain ⟨hc, ts, hts, hs⟩ := ih.braced hbody herr hkind
    exact .closed ⟨hc, ts, hts, .block hs⟩
  | _ => exact hexpr (by simpa only [hkind] using h)

/-- An `if` takes an `else` that is there, so without one it is open, and what
follows is none. -/
private theorem reads_condStmt (ih : ReadsStmts budget)
    (h : Reader.condStmt (budget + 1) c = .ok s c') (herr : c'.errors = [])
    (hword : c.current.kind = .kwIf) : c.ReadsStmt s c' := by
  rw [Reader.condStmt, take_bind, expect_bind_eq_ok] at h
  obtain ⟨hopen, h⟩ := h
  obtain ⟨test, c₁, htest, h⟩ := bind_eq_ok.1 h
  rw [expect_bind_eq_ok] at h
  obtain ⟨hclose, h⟩ := h
  obtain ⟨yes, c₂, hyes, h⟩ := bind_eq_ok.1 h
  have hword' := Cursor.rest_of_kind hword (by decide)
  have hopen' := Cursor.rest_of_kind hopen (by decide)
  have hclose' := Cursor.rest_of_kind hclose (by decide)
  rw [takeIf_bind] at h
  split at h
  · next hother =>
    simp only [↓reduceIte] at h
    obtain ⟨other, c₃, hother', h⟩ := bind_eq_ok.1 h
    obtain ⟨no, hno, rfl⟩ := map_eq_ok.1 hother'
    rw [node_bind, pure_eq_ok] at h
    obtain ⟨rfl, rfl⟩ := h
    obtain ⟨isOpen, ⟨herr₂, ts₃, hts₃, hs₃⟩, hlast⟩ := ih.statement hno herr
    rw [Cursor.errors_advance] at herr₂
    rw [Cursor.nextId_advance] at hs₃
    obtain ⟨isOpen', ⟨herr₁, ts₂, hts₂, hs₂⟩, hyesLast⟩ :=
      ih.statement hyes herr₂
    rw [Cursor.errors_advance] at herr₁
    rw [Cursor.nextId_advance] at hs₂
    obtain ⟨hc, ts₁, hts₁, hs₁⟩ :=
      (readsExprs budget).expression htest herr₁
    simp only [Cursor.errors_advance] at hc
    simp only [Cursor.nextId_advance] at hs₁
    -- An open branch would not have stopped before the `else`.
    obtain rfl : isOpen' = false :=
      Bool.eq_false_iff.2 fun hopen => hyesLast hopen hother
    refine ⟨isOpen, ⟨hc, c.current :: c.advance.current :: (ts₁ ++ c₁.current
      :: (ts₂ ++ c₂.current :: ts₃)), ?_,
      .condElse hword hopen hs₁ hclose hs₂ hother hs₃⟩, hlast⟩
    rw [hword', hopen', hts₁, hclose', hts₂,
      Cursor.rest_of_kind hother (by decide), hts₃]
    simp
  · next hother =>
    simp only [Bool.false_eq_true, ↓reduceIte, pure_bind] at h
    rw [node_bind, pure_eq_ok] at h
    obtain ⟨rfl, rfl⟩ := h
    obtain ⟨isOpen, ⟨herr₁, ts₂, hts₂, hs₂⟩, -⟩ := ih.statement hyes herr
    rw [Cursor.errors_advance] at herr₁
    rw [Cursor.nextId_advance] at hs₂
    obtain ⟨hc, ts₁, hts₁, hs₁⟩ :=
      (readsExprs budget).expression htest herr₁
    simp only [Cursor.errors_advance] at hc
    simp only [Cursor.nextId_advance] at hs₁
    refine ⟨true, ⟨hc, c.current :: c.advance.current
      :: (ts₁ ++ c₁.current :: ts₂), ?_,
      .cond hword hopen hs₁ hclose hs₂⟩, fun _ => hother⟩
    rw [hword', hopen', hts₁, hclose', hts₂]
    simp

/-- A `while` is open if its body is. -/
private theorem reads_loopStmt (ih : ReadsStmts budget)
    (h : Reader.loopStmt (budget + 1) c = .ok s c') (herr : c'.errors = [])
    (hword : c.current.kind = .kwWhile) : c.ReadsStmt s c' := by
  rw [Reader.loopStmt, take_bind, expect_bind_eq_ok] at h
  obtain ⟨hopen, h⟩ := h
  obtain ⟨test, c₁, htest, h⟩ := bind_eq_ok.1 h
  rw [expect_bind_eq_ok] at h
  obtain ⟨hclose, h⟩ := h
  obtain ⟨body, c₂, hbody, h⟩ := bind_eq_ok.1 h
  rw [node_bind, pure_eq_ok] at h
  obtain ⟨rfl, rfl⟩ := h
  obtain ⟨isOpen, ⟨herr₁, ts₂, hts₂, hs₂⟩, hlast⟩ := ih.statement hbody herr
  rw [Cursor.errors_advance] at herr₁
  rw [Cursor.nextId_advance] at hs₂
  obtain ⟨hc, ts₁, hts₁, hs₁⟩ := (readsExprs budget).expression htest herr₁
  simp only [Cursor.errors_advance] at hc
  simp only [Cursor.nextId_advance] at hs₁
  refine ⟨isOpen, ⟨hc, c.current :: c.advance.current
    :: (ts₁ ++ c₁.current :: ts₂), ?_,
    .loop hword hopen hs₁ hclose hs₂⟩, hlast⟩
  rw [Cursor.rest_of_kind hword (by decide),
    Cursor.rest_of_kind hopen (by decide), hts₁,
    Cursor.rest_of_kind hclose (by decide), hts₂]
  simp

/-- A `for` gives the tree that its clauses and its body make up. -/
private theorem reads_forStmt (ih : ReadsStmts budget)
    (h : Reader.forStmt (budget + 1) c = .ok s c') (herr : c'.errors = [])
    (hword : c.current.kind = .kwFor) : c.ReadsStmt s c' := by
  rw [Reader.forStmt, take_bind, expect_bind_eq_ok] at h
  obtain ⟨hopen, h⟩ := h
  obtain ⟨init, c₁, hinit, h⟩ := bind_eq_ok.1 h
  obtain ⟨test, c₂, htest, h⟩ := bind_eq_ok.1 h
  rw [Reader.ending, expect_bind_eq_ok] at h
  obtain ⟨hend, h⟩ := h
  obtain ⟨step, c₃, hstep, h⟩ := bind_eq_ok.1 h
  rw [expect_bind_eq_ok] at h
  obtain ⟨hclose, h⟩ := h
  obtain ⟨body, c₄, hbody, h⟩ := bind_eq_ok.1 h
  rw [run_forTree] at h
  injection h with hs hc'
  subst hs hc'
  -- Again the last part comes first.
  obtain ⟨isOpen, ⟨herr₃, ts₄, hts₄, hs₄⟩, hlast⟩ := ih.statement hbody herr
  rw [Cursor.errors_advance] at herr₃
  rw [Cursor.nextId_advance] at hs₄
  obtain ⟨herr₂, ts₃, hts₃, hs₃⟩ := reads_forStep hstep herr₃
  rw [Cursor.errors_advance] at herr₂
  obtain ⟨herr₁, ts₂, hts₂, hs₂⟩ := reads_forTest htest hend herr₂
  obtain ⟨hc, ts₁, hts₁, hs₁⟩ := reads_forInit hinit herr₁
  simp only [Cursor.errors_advance] at hc
  simp only [Cursor.nextId_advance] at hs₁ hs₂ hs₃
  refine ⟨isOpen, ⟨hc, c.current :: c.advance.current :: (ts₁ ++ (ts₂ ++
    (ts₃ ++ c₃.current :: ts₄))), ?_,
    .forLoop hword hopen hs₁ hs₂ hs₃ hclose hs₄⟩, hlast⟩
  rw [Cursor.rest_of_kind hword (by decide),
    Cursor.rest_of_kind hopen (by decide), hts₁, hts₂, hts₃,
    Cursor.rest_of_kind hclose (by decide), hts₄]
  simp

/-- What stands in braces is declarations up to the closing one. -/
private theorem reads_braced (ih : ReadsStmts budget) {node : Node}
    {body : List Stmt}
    (h : Reader.braced (budget + 1) c = .ok (node, body) c')
    (herr : c'.errors = []) (hopen : c.current.kind = .leftBrace) :
    c.Reads (.braced node body) c' := by
  rw [Reader.braced, take_bind] at h
  obtain ⟨body', c₁, hbody, h⟩ := bind_eq_ok.1 h
  rw [takeIf_bind] at h
  split at h
  · next hclose =>
    simp only [↓reduceIte, node_bind, pure_eq_ok, Prod.mk.injEq] at h
    obtain ⟨⟨rfl, rfl⟩, rfl⟩ := h
    obtain ⟨⟨hc, ts, hts, hs⟩, -⟩ :=
      ih.declarations hbody (by simpa using herr)
    rw [Cursor.errors_advance] at hc
    rw [Cursor.nextId_advance] at hs
    refine ⟨hc, c.current :: (ts ++ [c₁.current]), ?_,
      by simpa using Spells.braced hopen hs hclose⟩
    rw [Cursor.rest_of_kind hopen (by decide), hts,
      Cursor.rest_of_kind hclose (by decide)]
    simp
  · simp at h

end Step

/-- All readers of statements take what spells them, by induction on the
budget. -/
theorem readsStmts (budget : Nat) : ReadsStmts budget := by
  induction budget with
  | zero =>
      constructor <;> intros <;>
        simp_all [Reader.declarations, Reader.declaration, Reader.funDecl,
          Reader.statement, Reader.condStmt, Reader.loopStmt,
          Reader.forStmt, Reader.braced]
  | succ budget ih =>
      exact {
        declarations := reads_declarations ih
        declaration := reads_declaration ih
        funDecl := reads_funDecl ih
        statement := reads_statement ih
        condStmt := reads_condStmt ih
        loopStmt := reads_loopStmt ih
        forStmt := reads_forStmt ih
        braced := reads_braced ih }

end Lox
