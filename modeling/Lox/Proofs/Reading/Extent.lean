/-
How far a reading goes. It comes to the end of the text and no further:
what stands behind that token is not looked at, nor are the errors that
were met before, and a budget that is enough is as good as any greater
one. With what `Progress.lean` says of the tokens taken and the errors
met, this gives the account of a whole reading with its recoveries
(`parse_progresses`).

# How it is shown

`Persists r r'` says that where the first reader ends or is refused, the
second does the same in a text that has more behind its end, and with
errors that were met before. It says nothing where the first reader has
used up its budget, and that is what allows the second a greater one. It
holds of the small steps, it is kept when readers are put together, and by
induction on the smaller budget it holds of all.
-/
import Lox.Proofs.Reading.Progress

namespace Lox

-- ============================================================== cursors

namespace Cursor

/-- The cursor in a text with more tokens behind it. -/
def followed (junk : List Token) (c : Cursor) : Cursor :=
  { c with rest := c.rest ++ junk }

/-- The cursor with errors that were met before. -/
def behind (earlier : List SyntaxError) (c : Cursor) : Cursor :=
  { c with errors := earlier ++ c.errors }

/-- The end of the text is still ahead. -/
def Ended (c : Cursor) : Prop := ∃ t ∈ c.rest, t.kind = .endOfText

variable {c : Cursor} {junk : List Token} {earlier : List SyntaxError}

/-- The errors that were met do not change what is ahead. -/
@[simp] theorem current_behind :
    (c.behind earlier).current = c.current := rfl

/-- They stay behind the cursor as it goes on. -/
@[simp] theorem advance_behind :
    (c.behind earlier).advance = c.advance.behind earlier := by
  obtain ⟨rest, n, errors⟩ := c
  cases rest with
  | nil => rfl
  | cons t rest =>
    simp only [advance, behind]
    split <;> rfl

/-- Before the end of the text, more tokens behind it are not seen. -/
theorem current_followed (h : c.Ended) :
    (c.followed junk).current = c.current := by
  obtain ⟨rest, n, errors⟩ := c
  cases rest with
  | nil => simp [Ended] at h
  | cons t rest => rfl

/-- The cursor goes on without reaching them. -/
theorem advance_followed (h : c.Ended) :
    (c.followed junk).advance = c.advance.followed junk := by
  obtain ⟨rest, n, errors⟩ := c
  cases rest with
  | nil => simp [Ended] at h
  | cons t rest =>
    simp only [advance, followed, List.cons_append]
    split <;> rfl

/-- It does not go past the end of the text, so that is ahead for good. -/
theorem Ended.advance (h : c.Ended) : c.advance.Ended := by
  obtain ⟨rest, n, errors⟩ := c
  cases rest with
  | nil => exact h
  | cons t rest =>
    simp only [Ended, Cursor.advance] at h ⊢
    split
    · exact h
    · rename_i hinside
      obtain ⟨eof, hmem, heof⟩ := h
      rcases List.mem_cons.1 hmem with rfl | hmem
      · exact absurd heof hinside
      · exact ⟨eof, hmem, heof⟩

end Cursor

namespace Reader

variable {α β : Type}

/-- Where the first reader ends or is refused, the second does the same
whatever follows the end of the text and whatever was met before. -/
def Persists (r r' : Reader α) : Prop :=
  ∀ (c : Cursor) (junk : List Token) (earlier : List SyntaxError), c.Ended →
    match r c with
    | .ok a c₁ =>
      r' ((c.followed junk).behind earlier)
        = .ok a ((c₁.followed junk).behind earlier) ∧ c₁.Ended
    | .error (.refused e) c₁ =>
      r' ((c.followed junk).behind earlier)
        = .error (.refused e) ((c₁.followed junk).behind earlier) ∧ c₁.Ended
    | .error .exhausted _ => True

namespace Persists

-- ============================================================ small steps

/-- What is there at once is there in the longer text. -/
theorem pure (a : α) : Persists (pure a) (pure a) :=
  fun _ _ _ hc => ⟨rfl, hc⟩

/-- A refusal is about the token at hand, which is the same. -/
theorem refuse (fault : SyntaxFault) (pos : Position) :
    Persists (refuse fault pos : Reader α) (refuse fault pos) :=
  fun _ _ _ hc => ⟨rfl, hc⟩

/-- A reader without budget is outlasted by any. -/
theorem exhausted (r' : Reader α) : Persists (throw .exhausted) r' :=
  fun _ _ _ _ => trivial

/-- The token at hand is the same, for the end of the text is still ahead. -/
theorem current : Persists current current := by
  intro c junk earlier hc
  refine ⟨?_, hc⟩
  show EStateM.Result.ok _ _ = EStateM.Result.ok _ _
  rw [Cursor.current_behind, Cursor.current_followed hc]

/-- So is its kind. -/
theorem kind : Persists kind kind := by
  intro c junk earlier hc
  refine ⟨?_, hc⟩
  show EStateM.Result.ok _ _ = EStateM.Result.ok _ _
  rw [Cursor.current_behind, Cursor.current_followed hc]

/-- It is taken in both, and what is behind the end is not reached by that. -/
theorem take : Persists take take := by
  intro c junk earlier hc
  refine ⟨?_, hc.advance⟩
  show EStateM.Result.ok _ _ = EStateM.Result.ok _ _
  rw [Cursor.current_behind, Cursor.current_followed hc,
    Cursor.advance_behind, Cursor.advance_followed hc]

/-- To go on is to take without a look. -/
theorem skip : Persists (modify Cursor.advance) (modify Cursor.advance) := by
  intro c junk earlier hc
  refine ⟨?_, hc.advance⟩
  show EStateM.Result.ok _ _ = EStateM.Result.ok _ _
  rw [Cursor.advance_behind, Cursor.advance_followed hc]

/-- A node gets the same number: what has been met before is no part of the
count. -/
theorem node (pos : Position) : Persists (node pos) (node pos) :=
  fun _ _ _ hc => ⟨rfl, hc⟩

-- =========================================================== put together

/-- Readers one behind the other. The second starts where the first has ended,
with the end of the text still ahead of both. -/
theorem bind {r r' : Reader α} {f f' : α → Reader β} (hr : Persists r r')
    (hf : ∀ a, Persists (f a) (f' a)) : Persists (r >>= f) (r' >>= f') := by
  intro c junk earlier hc
  have hstep := hr c junk earlier hc
  rw [Sequencing.bind_apply, Sequencing.bind_apply]
  match hrun : r c with
  | .ok a c₁ =>
    rw [hrun] at hstep
    rw [hstep.1]
    exact hf a c₁ junk earlier hstep.2
  | .error (.refused e) c₁ =>
    rw [hrun] at hstep
    rw [hstep.1]
    exact ⟨rfl, hstep.2⟩
  | .error .exhausted c₁ => trivial

/-- What is made of a result is made of the same one. -/
theorem map {r r' : Reader α} (hr : Persists r r') (g : α → β) :
    Persists (g <$> r) (g <$> r') := by
  rw [map_eq_pure_bind, map_eq_pure_bind]
  exact hr.bind fun a => pure (g a)

/-- A choice is made alike, since it is made before either reader starts. -/
theorem ite {p : Prop} [Decidable p] {r₁ r₂ r₁' r₂' : Reader α}
    (h₁ : Persists r₁ r₁') (h₂ : Persists r₂ r₂') :
    Persists (if p then r₁ else r₂) (if p then r₁' else r₂') := by
  split
  · exact h₁
  · exact h₂

/-- What may come, comes in both or in neither. -/
theorem takeIf (wanted : TokenKind) :
    Persists (takeIf wanted) (takeIf wanted) :=
  kind.bind fun _ => .ite (skip.bind fun _ => .pure true) (.pure false)

/-- What has to come, comes in both, or is missing with the same error. -/
theorem expect (wanted : TokenKind) (fault : TokenKind → SyntaxFault) :
    Persists (expect wanted fault) (expect wanted fault) :=
  current.bind fun _ => .ite take (.refuse _ _)

/-- Reading is taken up again at the end of the text at the latest. -/
theorem resume_followed (junk : List Token) {tokens : List Token}
    (h : ∃ t ∈ tokens, t.kind = .endOfText) :
    resume (tokens ++ junk) = resume tokens ++ junk ∧
      ∃ t ∈ resume tokens, t.kind = .endOfText := by
  fun_induction resume tokens with
  | case1 => simp at h
  | case2 t rest hend => simp [resume, hend]
  | case3 t rest hend hsemicolon =>
    simpa [resume, hsemicolon, hend] using h
  | case4 t hend hsemicolon => simp [hend] at h
  | case5 t hend hsemicolon next rest hopens =>
    simpa [resume, hend, hsemicolon, hopens] using h
  | case6 t hend hsemicolon next rest hopens ih =>
    have hrest := ih (by simpa [hend] using h)
    simpa [resume, hend, hsemicolon, hopens] using hrest

/-- The recovery stays in front of the end of the text, so it drops the same
tokens, and it notes the error behind those that were met before. -/
theorem recovering {r r' : Reader Stmt} (hr : Persists r r') :
    Persists (recovering r) (recovering r') := by
  intro c junk earlier hc
  have hstep := hr c junk earlier hc
  unfold Reader.recovering
  match hrun : r c with
  | .ok s c₁ =>
    rw [hrun] at hstep
    rw [hstep.1]
    exact ⟨rfl, hstep.2⟩
  | .error (.refused e) c₁ =>
    rw [hrun] at hstep
    obtain ⟨hrest, hended⟩ := resume_followed junk hstep.2
    rw [hstep.1]
    refine ⟨?_, hended⟩
    simp only [Cursor.followed, Cursor.behind, hrest, List.append_assoc]
  | .error .exhausted c₁ => trivial

end Persists

open Persists

-- ========================================================== expressions

/-- With a greater budget, every reader of expressions does the same. -/
structure ExprsPersist (budget budget' : Nat) : Prop where
  expression : Persists (expression budget) (expression budget')
  joined : ∀ level, Persists (joined budget level) (joined budget' level)
  joinedMore : ∀ level left, Persists (joinedMore budget level left)
    (joinedMore budget' level left)
  operand : ∀ level, Persists (operand budget level) (operand budget' level)
  unary : Persists (unary budget) (unary budget')
  called : Persists (called budget) (called budget')
  calledMore : ∀ callee, Persists (calledMore budget callee)
    (calledMore budget' callee)
  arguments : Persists (arguments budget) (arguments budget')
  primary : Persists (primary budget) (primary budget')

section Expressions

variable {budget budget' : Nat} (ih : ExprsPersist budget budget')

include ih

/-- An assignment is a chain of readers, each with a step of the budget
less. -/
theorem persists_expression :
    Persists (expression (budget + 1)) (expression (budget' + 1)) := by
  refine .bind .current fun first => .bind (ih.joined .or) fun left =>
    .bind .kind fun found => .ite ?_ (.pure left)
  refine .bind .take fun sign => .bind ih.expression fun value => ?_
  cases left with
  | var node name => exact .bind (.node _) fun node => .pure _
  | _ => exact .refuse _ _

/-- Operands of a level are read one, and then as many more as there are. -/
theorem persists_joined (level : Level) :
    Persists (joined (budget + 1) level) (joined (budget' + 1) level) :=
  .bind (ih.operand level) fun left => ih.joinedMore level left

/-- Whether one more operand comes is decided by the token at hand. -/
theorem persists_joinedMore (level : Level) (left : Expr) :
    Persists (joinedMore (budget + 1) level left)
      (joinedMore (budget' + 1) level left) := by
  refine .bind .kind fun found => ?_
  cases level.connective? found with
  | none => exact .pure left
  | some op =>
    exact .bind .take fun sign => .bind (ih.operand level) fun right =>
      .bind (.node _) fun node => ih.joinedMore level _

/-- The operands of the tightest level are those with signs in front. -/
theorem persists_operand (level : Level) :
    Persists (operand (budget + 1) level) (operand (budget' + 1) level) := by
  unfold operand
  cases level.tighter? with
  | some tighter => exact ih.joined tighter
  | none => exact ih.unary

/-- A sign in front is told by the token at hand. -/
theorem persists_unary :
    Persists (unary (budget + 1)) (unary (budget' + 1)) := by
  refine .bind .kind fun found => ?_
  cases UnaryOp.ofKind? found with
  | none => exact ih.called
  | some op =>
    exact .bind .take fun sign => .bind ih.unary fun inner =>
      .bind (.node _) fun node => .pure _

/-- A callee, and then the lists of arguments behind it. -/
theorem persists_called :
    Persists (called (budget + 1)) (called (budget' + 1)) :=
  .bind ih.primary fun callee => ih.calledMore callee

/-- Whether there is one more list is decided by the token at hand, and so is
whether the list is empty. -/
theorem persists_calledMore (callee : Expr) :
    Persists (calledMore (budget + 1) callee)
      (calledMore (budget' + 1) callee) := by
  refine .bind .kind fun found => .ite ?_ (.pure callee)
  have hcall (opening : Token) (args : List Expr) :
      Persists
        (do
          let _ ← expect .rightParen (.noClosing .arguments)
          let list ← node opening.pos
          calledMore budget
            (.call (← node opening.pos) list.id callee args))
        (do
          let _ ← expect .rightParen (.noClosing .arguments)
          let list ← node opening.pos
          calledMore budget'
            (.call (← node opening.pos) list.id callee args)) :=
    .bind (.expect _ _) fun _ => .bind (.node _) fun list =>
      .bind (.node _) fun node => ih.calledMore _
  refine .bind .take fun opening => .bind .kind fun found => .ite ?_ ?_
  · exact hcall opening []
  · exact .bind ih.arguments fun args => hcall opening args

/-- Arguments are read as long as there is a comma behind them. -/
theorem persists_arguments :
    Persists (arguments (budget + 1)) (arguments (budget' + 1)) := by
  refine .bind ih.expression fun first => .bind (.takeIf _) fun more =>
    .ite ?_ (.pure [first])
  exact .bind ih.arguments fun others => .pure (first :: others)

/-- The token at hand says which primary expression it is. A grouping that is
not closed is refused at what is there instead. -/
theorem persists_primary :
    Persists (primary (budget + 1)) (primary (budget' + 1)) := by
  refine .bind .current fun t => ?_
  cases Literal.ofToken? t with
  | some value =>
    exact .bind .take fun _ => .bind (.node _) fun node => .pure _
  | none =>
    simp only
    split
    · exact .bind .take fun _ => .bind (.node _) fun node => .pure _
    · refine .bind .take fun _ => .bind ih.expression fun inner =>
        .bind (.takeIf _) fun closed => .ite ?_ ?_
      · exact .bind (.node _) fun node => .pure _
      · exact .bind .current fun _ => .refuse _ _
    · exact .refuse _ _

end Expressions

/-- All readers of expressions at once, by induction on the smaller budget.
Where it is used up nothing is said, so the greater one may go on. -/
theorem exprsPersist {budget budget' : Nat} (hle : budget ≤ budget') :
    ExprsPersist budget budget' := by
  induction budget generalizing budget' with
  | zero => constructor <;> intros <;> exact .exhausted _
  | succ budget ih =>
    obtain ⟨budget', rfl⟩ : ∃ more, budget' = more + 1 :=
      ⟨budget' - 1, by omega⟩
    replace ih : ExprsPersist budget budget' := ih (by omega)
    exact {
      expression := persists_expression ih
      joined := persists_joined ih
      joinedMore := persists_joinedMore ih
      operand := persists_operand ih
      unary := persists_unary ih
      called := persists_called ih
      calledMore := persists_calledMore ih
      arguments := persists_arguments ih
      primary := persists_primary ih }

-- =========================================================== statements

section Simple

variable {budget budget' : Nat}

/-- A statement is a chain of tokens that have to come and of expressions, and
all these are the same. -/
theorem persists_varDecl (hle : budget ≤ budget') :
    Persists (varDecl budget) (varDecl budget') := by
  have hrest (word name : Token) (init : Option Expr) :
      Persists
        (do
          let _ ← ending .variableDeclaration
          return Stmt.varDecl (← node word.pos) ⟨name.lexeme, name.pos⟩ init)
        (do
          let _ ← ending .variableDeclaration
          return Stmt.varDecl (← node word.pos) ⟨name.lexeme, name.pos⟩
            init) :=
    .bind (.expect _ _) fun _ => .bind (.node _) fun node => .pure _
  refine .bind .take fun word => .bind (.expect _ _) fun name =>
    .bind (.takeIf _) fun sign => .ite ?_ (hrest word name none)
  exact .bind ((exprsPersist hle).expression.map _) fun init =>
    hrest word name init

/-- The node of such a statement is placed at the token at hand. -/
theorem persists_exprStmt (hle : budget ≤ budget') :
    Persists (exprStmt budget) (exprStmt budget') :=
  .bind .current fun _ => .bind (exprsPersist hle).expression fun _ =>
    .bind (.expect _ _) fun _ => .bind (.node _) fun _ => .pure _

/-- A `print` is its word, an expression and a semicolon. -/
theorem persists_printStmt (hle : budget ≤ budget') :
    Persists (printStmt budget) (printStmt budget') :=
  .bind .take fun _ => .bind (exprsPersist hle).expression fun _ =>
    .bind (.expect _ _) fun _ => .bind (.node _) fun _ => .pure _

/-- Whether a `return` has a value is told by the token at hand. -/
theorem persists_retStmt (hle : budget ≤ budget') :
    Persists (retStmt budget) (retStmt budget') := by
  have hrest (word : Token) (value : Option Expr) :
      Persists
        (do
          let _ ← ending .returnValue
          return Stmt.ret (← node word.pos) value)
        (do
          let _ ← ending .returnValue
          return Stmt.ret (← node word.pos) value) :=
    .bind (.expect _ _) fun _ => .bind (.node _) fun node => .pure _
  refine .bind .take fun word => .bind .kind fun found =>
    .ite (hrest word none) ?_
  exact .bind ((exprsPersist hle).expression.map _) fun value =>
    hrest word value

/-- Parameters are read as long as there is a comma behind them, and each
takes from the budget. -/
theorem persists_parameters (hle : budget ≤ budget') :
    Persists (parameters budget) (parameters budget') := by
  induction budget generalizing budget' with
  | zero => exact .exhausted _
  | succ budget ih =>
    obtain ⟨budget', rfl⟩ : ∃ more, budget' = more + 1 :=
      ⟨budget' - 1, by omega⟩
    refine .bind (.expect _ _) fun first => .bind (.takeIf _) fun more =>
      .ite ?_ (.pure _)
    exact .bind (ih (by omega)) fun others => .pure _

/-- Which first clause a `for` has is told by the token at hand. -/
theorem persists_forInit (hle : budget ≤ budget') :
    Persists (forInit budget) (forInit budget') := by
  refine .bind (.takeIf _) fun ended => .ite (.pure none) ?_
  refine .bind .kind fun found => .ite ?_ ?_
  · exact .bind (persists_varDecl hle) fun s => .pure (some s)
  · exact .bind (persists_exprStmt hle) fun s => .pure (some s)

/-- Whether a `for` has a second clause is told by the token at hand. -/
theorem persists_forTest (hle : budget ≤ budget') :
    Persists (forTest budget) (forTest budget') := by
  refine .bind .current fun t => .ite ?_ (exprsPersist hle).expression
  exact .bind (.node _) fun node => .pure _

/-- Whether it has a third one is told by the closing parenthesis. -/
theorem persists_forStep (hle : budget ≤ budget') :
    Persists (forStep budget) (forStep budget') := by
  refine .bind .kind fun found => .ite (.pure none) ?_
  exact .bind (exprsPersist hle).expression fun e => .pure (some e)

/-- The trees that a `for` stands for take no tokens, but numbers. -/
theorem persists_forBody (pos : Position) (step : Option Expr)
    (body : Stmt) :
    Persists (forBody pos step body) (forBody pos step body) := by
  cases step with
  | none => exact .pure body
  | some e =>
    exact .bind (.node _) fun node => .bind (.node _) fun outer => .pure _

/-- The same for the loop around the body. -/
theorem persists_forLoop (pos : Position) (init : Option Stmt) (test : Expr)
    (body : Stmt) :
    Persists (forLoop pos init test body) (forLoop pos init test body) := by
  refine .bind (.node _) fun node => ?_
  cases init with
  | none => exact .pure _
  | some first => exact .bind (.node _) fun outer => .pure _

end Simple

/-- With a greater budget, every reader of statements does the same. -/
structure StmtsPersist (budget budget' : Nat) : Prop where
  declarations : ∀ ends, Persists (declarations ends budget)
    (declarations ends budget')
  declaration : Persists (declaration budget) (declaration budget')
  funDecl : Persists (funDecl budget) (funDecl budget')
  statement : Persists (statement budget) (statement budget')
  condStmt : Persists (condStmt budget) (condStmt budget')
  loopStmt : Persists (loopStmt budget) (loopStmt budget')
  forStmt : Persists (forStmt budget) (forStmt budget')
  braced : Persists (braced budget) (braced budget')

section Nested

variable {budget budget' : Nat} (hle : budget ≤ budget')
  (ih : StmtsPersist budget budget')

include ih

/-- Declarations are read until a token ends them, which the end of the text
does in any case. -/
theorem persists_declarations (ends : TokenKind → Bool) :
    Persists (declarations ends (budget + 1))
      (declarations ends (budget' + 1)) := by
  refine .bind .kind fun found => .ite (.pure []) ?_
  exact .bind ih.declaration fun first =>
    .bind (ih.declarations ends) fun others => .pure _

/-- What is in braces is read up to the closing one, or refused at what is
there. -/
theorem persists_braced :
    Persists (braced (budget + 1)) (braced (budget' + 1)) := by
  refine .bind .take fun opening => .bind (ih.declarations _) fun body =>
    .bind (.takeIf _) fun closed => .ite ?_ ?_
  · exact .bind (.node _) fun node => .pure _
  · exact .bind .current fun _ => .refuse _ _

include hle

/-- A declaration recovers from what it is refused for; this is where errors
are met. -/
theorem persists_declaration :
    Persists (declaration (budget + 1)) (declaration (budget' + 1)) := by
  refine .recovering (.bind .kind fun found => ?_)
  split
  · exact ih.funDecl
  · exact persists_varDecl hle
  · exact ih.statement

/-- A function is its head and a body in braces. -/
theorem persists_funDecl :
    Persists (funDecl (budget + 1)) (funDecl (budget' + 1)) := by
  have hrest (word name : Token) (params : List Name) :
      Persists (functionRest budget word name params)
        (functionRest budget' word name params) := by
    refine .bind (.expect _ _) fun _ => .bind .current fun opening =>
      .ite ?_ (.refuse _ _)
    exact .bind ih.braced fun body => .bind (.node _) fun list =>
      .bind (.node _) fun node => .pure _
  rw [funDecl_succ, funDecl_succ]
  refine .bind .take fun word => .bind (.expect _ _) fun name =>
    .bind (.expect _ _) fun _ => .bind .kind fun found =>
      .ite (hrest word name []) ?_
  exact .bind (persists_parameters hle) fun params =>
    hrest word name params

/-- Which statement it is, is told by the token at hand. -/
theorem persists_statement :
    Persists (statement (budget + 1)) (statement (budget' + 1)) := by
  refine .bind .kind fun found => ?_
  split
  · exact ih.forStmt
  · exact ih.condStmt
  · exact persists_printStmt hle
  · exact persists_retStmt hle
  · exact ih.loopStmt
  · exact .bind ih.braced fun body => .pure _
  · exact persists_exprStmt hle

/-- An `if` takes an `else` that is at hand. -/
theorem persists_condStmt :
    Persists (condStmt (budget + 1)) (condStmt (budget' + 1)) := by
  have hrest (word : Token) (test : Expr) (yes : Stmt)
      (no : Option Stmt) :
      Persists (do return Stmt.cond (← node word.pos) test yes no)
        (do return Stmt.cond (← node word.pos) test yes no) :=
    .bind (.node _) fun node => .pure _
  refine .bind .take fun word => .bind (.expect _ _) fun _ =>
    .bind (exprsPersist hle).expression fun test =>
      .bind (.expect _ _) fun _ => .bind ih.statement fun yes =>
        .bind (.takeIf _) fun more => .ite ?_ (hrest word test yes none)
  exact .bind (ih.statement.map _) fun no => hrest word test yes no

/-- A `while` is its head and a body. -/
theorem persists_loopStmt :
    Persists (loopStmt (budget + 1)) (loopStmt (budget' + 1)) :=
  .bind .take fun _ => .bind (.expect _ _) fun _ =>
    .bind (exprsPersist hle).expression fun _ =>
      .bind (.expect _ _) fun _ => .bind ih.statement fun _ =>
        .bind (.node _) fun _ => .pure _

/-- A `for` is its clauses and a body, put together behind it. -/
theorem persists_forStmt :
    Persists (forStmt (budget + 1)) (forStmt (budget' + 1)) :=
  .bind .take fun _ => .bind (.expect _ _) fun _ =>
    .bind (persists_forInit hle) fun init =>
      .bind (persists_forTest hle) fun test => .bind (.expect _ _) fun _ =>
        .bind (persists_forStep hle) fun step => .bind (.expect _ _) fun _ =>
          .bind ih.statement fun body =>
            .bind (persists_forBody _ step body) fun inner =>
              persists_forLoop _ init test inner

end Nested

/-- All readers of statements at once, again by induction on the smaller
budget. -/
theorem stmtsPersist {budget budget' : Nat} (hle : budget ≤ budget') :
    StmtsPersist budget budget' := by
  induction budget generalizing budget' with
  | zero => constructor <;> intros <;> exact .exhausted _
  | succ budget ih =>
    obtain ⟨budget', rfl⟩ : ∃ more, budget' = more + 1 :=
      ⟨budget' - 1, by omega⟩
    replace hle : budget ≤ budget' := by omega
    replace ih := ih hle
    exact {
      declarations := persists_declarations ih
      declaration := persists_declaration hle ih
      funDecl := persists_funDecl hle ih
      statement := persists_statement hle ih
      condStmt := persists_condStmt hle ih
      loopStmt := persists_loopStmt hle ih
      forStmt := persists_forStmt hle ih
      braced := persists_braced ih }

/-- What ended stays so, with a greater budget, more behind the end and
errors that were met before. -/
theorem Persists.run_behind {r r' : Reader α} (h : Persists r r')
    {c c' : Cursor} {a : α} (hc : c.Ended) (hr : r c = .ok a c')
    (junk : List Token) (earlier : List SyntaxError) :
    r' ((c.followed junk).behind earlier)
      = .ok a ((c'.followed junk).behind earlier) := by
  have hrun := h c junk earlier hc
  rw [hr] at hrun
  exact hrun.1

/-- What ended stays so, with a greater budget and more behind the end. -/
theorem Persists.run_eq {r r' : Reader α} (h : Persists r r') {c c' : Cursor}
    {a : α} (hc : c.Ended) (hr : r c = .ok a c') (junk : List Token) :
    r' (c.followed junk) = .ok a (c'.followed junk) :=
  h.run_behind hc hr junk []

/-- In the same text, the second reader does the same as the first,
unless that has used up its budget. -/
theorem Persists.eq_or {r r' : Reader α} (h : Persists r r') {c : Cursor}
    (hc : c.Ended) : r' c = r c ∨ ∃ c', r c = .error .exhausted c' := by
  have hfollowed (c : Cursor) : (c.followed []).behind [] = c := by
    simp [Cursor.followed, Cursor.behind]
  have hrun := h c [] [] hc
  match hr : r c with
  | .ok a c' =>
    simp only [hr, hfollowed] at hrun
    exact .inl hrun.1
  | .error (.refused e) c' =>
    simp only [hr, hfollowed] at hrun
    exact .inl hrun.1
  | .error .exhausted c' => exact .inr ⟨c', rfl⟩

end Reader

-- ============================================================== readings

open Reader

section Reading

variable {ts : List Token} {eof : Token} {n : Nat}

/-- What has been made of a text: this program, or these errors if there
are any; and the identity of the next node. -/
def Parsed.Is (p : Parsed) (program : List Stmt) (errors : List SyntaxError)
    (id : Nat) : Prop :=
  p.nextId = id ∧
    ((errors = [] ∧ p.result = .ok program) ∨
      ∃ d : Diagnostics SyntaxError, d.toList = errors ∧ p.result = .error d)

/-- The end of the text is ahead of a cursor over the tokens and it. -/
theorem ended_of_append (heof : eof.kind = .endOfText)
    (errors : List SyntaxError) :
    Cursor.Ended ⟨ts ++ [eof], n, errors⟩ :=
  ⟨eof, by simp, heof⟩

/-- A program is read up to the end of the text, with no more errors than
tokens. -/
theorem declarations_reach_end (heof : eof.kind = .endOfText)
    (hts : ∀ t ∈ ts, t.kind ≠ .endOfText) (n : Nat) :
    ∃ program id errors,
      declarations endsProgram (nestingBudget (ts ++ [eof]))
          ⟨ts ++ [eof], n, []⟩
        = .ok program ⟨[eof], id, errors⟩ ∧ errors.length ≤ ts.length := by
  obtain ⟨program, ⟨rest, id, errors⟩, hrun, hpays, hend⟩ :=
    (stmtsSettle (nestingBudget (ts ++ [eof]))).declarations endsProgram
      ⟨ts ++ [eof], n, []⟩ rfl (by simp only [nestingBudget]; omega)
  obtain ⟨taken, met, hpasses, hle⟩ := hpays
  -- the program ends at the first end of the text, which is the only one
  have hkind : kindAt rest = .endOfText := by
    simpa [endsProgram, kind_current] using hend
  obtain rfl := eq_of_append_end hts hpasses.inside heof hkind hpasses.rest
  obtain rfl : [eof] = rest := List.append_cancel_left hpasses.rest
  obtain rfl : errors = met := hpasses.errors
  exact ⟨program, id, errors, hrun, hle⟩

/-- At a token that ends declarations there are no more of them. -/
theorem declarations_of_ends {ends : TokenKind → Bool} {budget : Nat}
    {c : Cursor} (h : ends c.current.kind = true) :
    declarations ends (budget + 1) c = .ok [] c := by
  rw [declarations, kind_bind, if_pos h]
  rfl

/-- What is made of a text whose program has been read to the end. -/
theorem parse_of_declarations {program : List Stmt} {tokens rest : List Token}
    {id : Nat} {errors : List SyntaxError}
    (h : declarations endsProgram (nestingBudget tokens) ⟨tokens, n, []⟩
      = .ok program ⟨rest, id, errors⟩) :
    (parse tokens n).Is program errors id := by
  unfold parse
  simp only [h]
  cases herrors : Diagnostics.ofList? errors with
  | none => exact ⟨rfl, .inl ⟨Diagnostics.ofList?_eq_none.1 herrors, rfl⟩⟩
  | some d => exact ⟨rfl, .inr ⟨d, Diagnostics.ofList?_eq_some.1 herrors, rfl⟩⟩

/-- A declaration that is called before the end of the text takes a
token, no fewer tokens than it reports errors, and leaves the end. -/
theorem declaration_advances (heof : eof.kind = .endOfText)
    (hts : ∀ t ∈ ts, t.kind ≠ .endOfText) (hne : ts ≠ []) {budget : Nat}
    (hbudget : 32 * (ts.length + 1) + 18 ≤ budget)
    (errors : List SyntaxError) :
    ∃ s taken left id met, ts = taken ++ left ∧ taken ≠ [] ∧
      met.length ≤ taken.length ∧
      declaration budget ⟨ts ++ [eof], n, errors⟩
        = .ok s ⟨left ++ [eof], id, errors ++ met⟩ := by
  obtain ⟨t, more, rfl⟩ := List.exists_cons_of_ne_nil hne
  obtain ⟨s, ⟨rest, id, errors'⟩, hrun, taken, met, hpasses, hle, htaken⟩ :=
    (stmtsSettle budget).declaration ⟨t :: more ++ [eof], n, errors⟩
      (hts t (by simp)) (by simpa using hbudget)
  obtain ⟨left, hleft, hsplit⟩ := hpasses.ends rfl heof
  obtain rfl : rest = left ++ [eof] := hleft
  obtain rfl : errors' = errors ++ met := hpasses.errors
  exact ⟨s, taken, left, id, met, hsplit, htaken, hle, hrun⟩

/-- A reading comes to an end, whatever the tokens: it goes on to the end
of the text, stays there, and does not look at what is behind it; it
reports no more errors than there are tokens; and the loops that call for
a declaration do so only before the end, where each takes a token. -/
theorem parse_progresses (heof : eof.kind = .endOfText)
    (hts : ∀ t ∈ ts, t.kind ≠ .endOfText) (n : Nat) :
    (∃ program id errors, errors.length ≤ ts.length ∧
      ∀ junk,
        (∀ budget, nestingBudget (ts ++ [eof]) ≤ budget →
          declarations endsProgram budget ⟨ts ++ eof :: junk, n, []⟩
            = .ok program ⟨eof :: junk, id, errors⟩) ∧
        (parse (ts ++ eof :: junk) n).Is program errors id) ∧
    (∀ ends ∈ [endsBlock, endsProgram], ∀ budget id errors,
      declarations ends (budget + 1) ⟨[eof], id, errors⟩
        = .ok [] ⟨[eof], id, errors⟩) ∧
    (∀ left budget id errors, left <:+ ts → left ≠ [] →
      (∃ s taken left' id' met, left = taken ++ left' ∧ taken ≠ [] ∧
          met.length ≤ taken.length ∧
          declaration budget ⟨left ++ [eof], id, errors⟩
            = .ok s ⟨left' ++ [eof], id', errors ++ met⟩) ∨
        (budget < 32 * (left.length + 1) + 18 ∧
          ∃ c, declaration budget ⟨left ++ [eof], id, errors⟩
            = .error .exhausted c)) := by
  refine ⟨?_, ?_, ?_⟩
  · obtain ⟨program, id, errors, hrun, hle⟩ :=
      declarations_reach_end heof hts n
    refine ⟨program, id, errors, hle, fun junk => ?_⟩
    have hread : ∀ budget, nestingBudget (ts ++ [eof]) ≤ budget →
        declarations endsProgram budget ⟨ts ++ eof :: junk, n, []⟩
          = .ok program ⟨eof :: junk, id, errors⟩ := by
      intro budget hbudget
      have hfollowed := ((stmtsPersist hbudget).declarations
        endsProgram).run_eq (ended_of_append heof []) hrun junk
      simpa [Cursor.followed] using hfollowed
    refine ⟨hread, parse_of_declarations (hread _ ?_)⟩
    simp only [nestingBudget, List.length_append, List.length_cons,
      List.length_nil]
    omega
  · intro ends hends budget id errors
    have hstop : ends eof.kind = true := by
      rw [heof]
      rcases List.mem_cons.1 hends with rfl | hends
      · rfl
      · rw [List.mem_singleton.1 hends]
        rfl
    exact declarations_of_ends hstop
  · intro left budget id errors hsuffix hne
    have hleft : ∀ t ∈ left, t.kind ≠ .endOfText :=
      fun t ht => hts t (hsuffix.mem ht)
    have henough := Nat.le_max_left (32 * (left.length + 1) + 18) budget
    have hok := declaration_advances (n := id) heof hleft hne henough errors
    -- a smaller budget is used up, or does as well
    rcases (stmtsPersist (Nat.le_max_right _ budget)).declaration.eq_or
      (ended_of_append heof errors) with hsame | hused
    · exact .inl (hsame ▸ hok)
    · refine .inr ⟨Nat.lt_of_not_le fun hle => ?_, hused⟩
      obtain ⟨s, taken, left', id', met, -, -, -, hrun⟩ :=
        declaration_advances (n := id) heof hleft hne hle errors
      obtain ⟨c, hused⟩ := hused
      rw [hused] at hrun
      cases hrun

/-- The bound on errors is met where a brace is opened before a lone
semicolon: one error for each. What is behind the end adds none. -/
theorem parse_progresses_openBlock :
    let brace : Token := ⟨.leftBrace, "\x7b", .start⟩
    let mark : Token := ⟨.semicolon, ";", .start⟩
    let eof : Token := ⟨.endOfText, "", .start⟩
    (∃ program id errors, errors.length ≤ [brace, mark].length ∧
      (parse ([brace, mark] ++ eof :: [mark]) 0).Is program errors id) ∧
    (parse ([brace, mark] ++ eof :: [mark]) 0).result
      = .error ⟨⟨.noExpression .semicolon, .start⟩,
          [⟨.openBlock, .start⟩]⟩ := by
  intro brace mark eof
  refine ⟨?_, rfl⟩
  obtain ⟨⟨program, id, errors, hle, hread⟩, -⟩ :=
    @parse_progresses [brace, mark] eof rfl (by decide) 0
  exact ⟨program, id, errors, hle, (hread [mark]).2⟩

end Reading

end Lox
