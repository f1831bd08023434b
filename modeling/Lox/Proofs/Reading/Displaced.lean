/-
The places of the tokens and the number that a reading starts with. The
places are handed on to nodes and errors, the number is given to nodes,
and neither is looked at. So if the tokens stand elsewhere and the
numbers start later, the same tokens are accepted or refused in the same
way: with the same trees up to the places and numbers of their nodes, or
with the same errors at the places of the same tokens (`parse_displaced`).
And since the places of nodes and errors are handed on, they are places
of tokens (`pos_of_parse_error`).

# How it is shown

`Shifts move k h` says it of two readers, where `h` takes the results of
the one to those of the other. It holds of the small steps, it is kept
when readers are put together, and by induction on the budget it holds
of all.

One place is not a token's: a cursor without tokens looks at the start
of the text. `Grounded` sets this case aside. A reading that starts
before the end of a text always has a token to look at, and one that
does not move the start needs none.
-/
import Lox.Program
import Lox.Proofs.Reading.Laws
import Lox.Proofs.Reading.Relocated
import Lox.Proofs.Tree.Nodes

namespace Lox

-- ============================================================ elsewhere

section Elsewhere

variable (move : Position → Position) (k : Nat)

/-- The node at another place, with a number that is greater by so many. -/
def Node.displaced (node : Node) : Node := ⟨node.id + k, move node.pos⟩

/-- The expression with its nodes elsewhere. -/
abbrev Expr.displaced (e : Expr) : Expr := e.mapNodes (.displaced move k)

/-- The statement with its nodes elsewhere. -/
abbrev Stmt.displaced (s : Stmt) : Stmt := s.mapNodes (.displaced move k)

/-- The statements with their nodes elsewhere. -/
abbrev Stmt.allDisplaced (ss : List Stmt) : List Stmt :=
  Stmt.mapAll (.displaced move k) ss

/-- The fault, where it names a place, of a text that stands elsewhere. -/
def SyntaxFault.moved : SyntaxFault → SyntaxFault
  | openGroup opened => openGroup (move opened)
  | other => other

/-- The error at another place. -/
def SyntaxError.moved (e : SyntaxError) : SyntaxError :=
  ⟨e.fault.moved move, move e.pos⟩

/-- The errors of another kind that go with these. -/
def Diagnostics.map {ε ε' : Type} (f : ε → ε') (d : Diagnostics ε) :
    Diagnostics ε' :=
  ⟨f d.first, d.others.map f⟩

/-- Errors that go with these go with them one by one, in their order. -/
theorem Diagnostics.toList_map {ε ε' : Type} (f : ε → ε')
    (d : Diagnostics ε) : (d.map f).toList = d.toList.map f := rfl

/-- There are errors of the other kind just where there are some of this one,
so a text is accepted elsewhere if it is here. -/
theorem Diagnostics.ofList?_map {ε ε' : Type} (f : ε → ε')
    (es : List ε) : ofList? (es.map f) = (ofList? es).map (.map f) := by
  cases es <;> rfl

/-- Why a reading elsewhere stopped. -/
def Stop.moved : Stop → Stop
  | refused e => refused (e.moved move)
  | exhausted => exhausted

/-- A token elsewhere is of the same kind, which is all that a reader decides
by. -/
@[simp] theorem Token.kind_moved (t : Token) :
    (t.moved move).kind = t.kind := rfl

/-- It is spelled the same, so names and literals are the same. -/
@[simp] theorem Token.lexeme_moved (t : Token) :
    (t.moved move).lexeme = t.lexeme := rfl

@[simp] theorem Token.pos_moved (t : Token) :
    (t.moved move).pos = move t.pos := rfl

/-- The cursor over the tokens elsewhere. -/
def Cursor.displaced (c : Cursor) : Cursor :=
  ⟨c.rest.map (·.moved move), c.nextId + k, c.errors.map (·.moved move)⟩

/-- The cursor has a token to look at as long as there is a reading, or
need not have one. -/
def Cursor.Grounded (c : Cursor) : Prop :=
  move .start = .start ∨
    ∃ ts eof, c.rest = ts ++ [eof] ∧ eof.kind = .endOfText

variable {move k}

/-- The token to look at is the same elsewhere. A cursor without tokens looks
at the start of the text, wherever the others are, so this needs a grounded
one. -/
theorem Cursor.current_displaced {c : Cursor} (h : c.Grounded move) :
    (c.displaced move k).current = c.current.moved move := by
  obtain ⟨rest, n, errors⟩ := c
  cases rest with
  | cons t rest => rfl
  | nil =>
    rcases h with h | ⟨ts, eof, hrest, -⟩
    · simp [displaced, current, Token.moved, h]
    · simp at hrest

/-- To go on and to stand elsewhere can be done in either order. -/
theorem Cursor.advance_displaced (c : Cursor) :
    (c.displaced move k).advance = c.advance.displaced move k := by
  obtain ⟨rest, n, errors⟩ := c
  cases rest with
  | nil => rfl
  | cons t rest =>
    simp only [advance, displaced, List.map_cons, Token.moved]
    split <;> rfl

/-- Only the tokens ahead count, and not the number of the next node or the
errors so far. -/
theorem Cursor.Grounded.of_rest {c c' : Cursor} (h : c.Grounded move)
    (hrest : c'.rest = c.rest) : c'.Grounded move := by
  unfold Grounded
  rwa [hrest]

/-- The last token is not taken. -/
theorem Cursor.Grounded.advance {c : Cursor} (h : c.Grounded move) :
    c.advance.Grounded move := by
  refine h.imp id ?_
  rintro ⟨ts, eof, hrest, heof⟩
  unfold Cursor.advance
  rw [hrest]
  cases ts with
  | nil => exact ⟨[], eof, by simp [heof, hrest], heof⟩
  | cons t ts =>
    simp only [List.cons_append]
    split
    · exact ⟨t :: ts, eof, hrest, heof⟩
    · exact ⟨ts, eof, rfl, heof⟩

/-- Reading is taken up again at the same token: what is passed over is decided
by kinds. -/
theorem Reader.resume_moved (tokens : List Token) :
    resume (tokens.map (·.moved move))
      = (resume tokens).map (·.moved move) := by
  fun_induction resume tokens with
  | case1 => rfl
  | case2 t rest hend => simp [resume, hend]
  | case3 t rest hend hsemicolon =>
    simp [resume, hsemicolon]
  | case4 t hend hsemicolon => simp [resume, hend, hsemicolon]
  | case5 t hend hsemicolon next rest hopens =>
    simp [resume, hend, hsemicolon, hopens]
  | case6 t hend hsemicolon next rest hopens ih =>
    simpa [resume, hend, hsemicolon, hopens] using ih

/-- Reading is taken up again at the last token at the latest. -/
theorem Reader.resume_append {eof : Token} (heof : eof.kind = .endOfText)
    (ts : List Token) : ∃ ts', resume (ts ++ [eof]) = ts' ++ [eof] := by
  induction ts with
  | nil => exact ⟨[], by simp [resume, heof]⟩
  | cons t ts ih =>
    rw [List.cons_append]
    unfold resume
    split
    · exact ⟨t :: ts, rfl⟩
    split
    · exact ⟨ts, rfl⟩
    cases hmore : ts ++ [eof] with
    | nil => simp at hmore
    | cons next rest =>
      simp only
      split
      · exact ⟨ts, hmore.symm⟩
      · rwa [hmore] at ih

end Elsewhere

namespace Reader

variable {move : Position → Position} {k : Nat} {α β γ δ : Type}

/-- The cursor that a reading has come to. -/
def reached : EStateM.Result Stop Cursor α → Cursor
  | .ok _ c => c
  | .error _ c => c

/-- What a reading has come to, elsewhere. -/
def displacedResult (move : Position → Position) (k : Nat) (h : α → β) :
    EStateM.Result Stop Cursor α → EStateM.Result Stop Cursor β
  | .ok a c => .ok (h a) (c.displaced move k)
  | .error stop c => .error (stop.moved move) (c.displaced move k)

/-- Elsewhere, the second reader comes to what the first comes to. -/
def Shifts (move : Position → Position) (k : Nat) (h : α → β) (r : Reader α)
    (r' : Reader β) : Prop :=
  ∀ c : Cursor, c.Grounded move →
    r' (c.displaced move k) = displacedResult move k h (r c) ∧
      (reached (r c)).Grounded move

namespace Shifts

-- ============================================================ small steps

/-- A result that is there at once goes with the one elsewhere. -/
theorem pure {h : α → β} (a : α) :
    Shifts move k h (pure a) (pure (h a)) :=
  fun _ hc => ⟨rfl, hc⟩

/-- So does a part that is missing. -/
theorem none {h : α → β} :
    Shifts move k (Option.map h) (Pure.pure none) (Pure.pure none) :=
  pure Option.none

/-- A reading that stops, stops elsewhere for the same reason. -/
theorem throw {h : α → β} (stop : Stop) :
    Shifts move k h (throw stop) (throw (stop.moved move)) :=
  fun _ hc => ⟨rfl, hc⟩

/-- An error at a place is raised at the place that goes with it. The fault
itself names a place only where it speaks of a parenthesis that was opened. -/
theorem refuse {h : α → β} (fault : SyntaxFault) (pos : Position) :
    Shifts move k h (refuse fault pos)
      (refuse (fault.moved move) (move pos)) :=
  throw (.refused ⟨fault, pos⟩)

/-- The token that is looked at is the same, at its own place. -/
theorem current : Shifts move k (Token.moved move) current current := by
  intro c hc
  refine ⟨?_, hc⟩
  show EStateM.Result.ok _ _ = EStateM.Result.ok _ _
  rw [Cursor.current_displaced hc]

/-- Its kind is the same, and no reader looks at more before it decides. -/
theorem kind : Shifts move k id kind kind := by
  intro c hc
  refine ⟨?_, hc⟩
  show EStateM.Result.ok _ _ = EStateM.Result.ok _ _
  rw [Cursor.current_displaced hc]
  rfl

/-- The same token is taken, and the cursor goes on. -/
theorem take : Shifts move k (Token.moved move) take take := by
  intro c hc
  refine ⟨?_, hc.advance⟩
  show EStateM.Result.ok _ _ = EStateM.Result.ok _ _
  rw [Cursor.current_displaced hc, c.advance_displaced]

/-- To go on is the same wherever the tokens stand. -/
theorem skip :
    Shifts move k id (modify Cursor.advance) (modify Cursor.advance) := by
  intro c hc
  refine ⟨?_, hc.advance⟩
  show EStateM.Result.ok _ _ = EStateM.Result.ok _ _
  rw [c.advance_displaced]

/-- A new node gets the place that goes with its own, and a number that is
greater by what the numbers start later. -/
theorem node (pos : Position) :
    Shifts move k (Node.displaced move k) (node pos) (node (move pos)) := by
  intro c hc
  refine ⟨?_, hc.of_rest rfl⟩
  show EStateM.Result.ok _ _ = EStateM.Result.ok _ _
  rw [Cursor.displaced, Cursor.displaced, Nat.add_right_comm]
  rfl

-- =========================================================== put together

/-- Readers one behind the other: the second goes on from where the first has
come to, which is grounded as well. -/
theorem bind {h : α → β} {g : γ → δ} {r : Reader α} {r' : Reader β}
    {f : α → Reader γ} {f' : β → Reader δ} (hr : Shifts move k h r r')
    (hf : ∀ a, Shifts move k g (f a) (f' (h a))) :
    Shifts move k g (r >>= f) (r' >>= f') := by
  intro c hc
  obtain ⟨hstep, hgrounded⟩ := hr c hc
  rw [Sequencing.bind_apply, Sequencing.bind_apply, hstep]
  cases hrun : r c with
  | ok a c₁ =>
    rw [hrun] at hgrounded
    exact hf a c₁ hgrounded
  | error stop c₁ =>
    rw [hrun] at hgrounded
    exact ⟨rfl, hgrounded⟩

/-- A step whose result has no places and no numbers. -/
theorem next {g : γ → δ} {r : Reader α} {f : α → Reader γ}
    {f' : α → Reader δ} (hr : Shifts move k id r r)
    (hf : ∀ a, Shifts move k g (f a) (f' a)) :
    Shifts move k g (r >>= f) (r >>= f') :=
  bind hr hf

/-- What is made of a result elsewhere goes with what is made of it here. -/
theorem map {h : α → β} {g : α → γ} {g' : β → δ} {h' : γ → δ}
    {r : Reader α} {r' : Reader β} (hr : Shifts move k h r r')
    (hg : ∀ a, g' (h a) = h' (g a)) :
    Shifts move k h' (g <$> r) (g' <$> r') := by
  rw [map_eq_pure_bind, map_eq_pure_bind]
  refine bind hr fun a => ?_
  rw [hg]
  exact pure (g a)

/-- A choice that depends on no place is made alike. -/
theorem ite {p : Prop} [Decidable p] {h : α → β} {r₁ r₂ : Reader α}
    {r₁' r₂' : Reader β} (h₁ : Shifts move k h r₁ r₁')
    (h₂ : Shifts move k h r₂ r₂') :
    Shifts move k h (if p then r₁ else r₂) (if p then r₁' else r₂') := by
  split
  · exact h₁
  · exact h₂

/-- A token of the wanted kind is taken here and elsewhere, or in neither. -/
theorem takeIf (wanted : TokenKind) :
    Shifts move k id (takeIf wanted) (takeIf wanted) :=
  kind.next fun _ => .ite (skip.next fun _ => .pure true) (.pure false)

/-- A token that has to come is taken, or is missing with the same fault at the
place of what is there in its stead. -/
theorem expect (wanted : TokenKind) {fault : TokenKind → SyntaxFault}
    (hfault : ∀ found, (fault found).moved move = fault found) :
    Shifts move k (Token.moved move) (expect wanted fault)
      (expect wanted fault) := by
  refine current.bind fun t => .ite take ?_
  have hrefuse : Shifts move k (Token.moved move)
      (Reader.refuse (fault t.kind) t.pos)
      (Reader.refuse ((fault t.kind).moved move) (move t.pos)) :=
    .refuse _ _
  rwa [hfault] at hrefuse

/-- After an error, reading is taken up again at the same token, with the error
noted at its other place. -/
theorem recovering {h : Stmt → Stmt} {r r' : Reader Stmt}
    (hr : Shifts move k h r r') :
    Shifts move k (Option.map h) (recovering r) (recovering r') := by
  intro c hc
  obtain ⟨hstep, hgrounded⟩ := hr c hc
  unfold Reader.recovering
  rw [hstep]
  cases hrun : r c with
  | ok s c₁ =>
    rw [hrun] at hgrounded
    exact ⟨rfl, hgrounded⟩
  | error stop c₁ =>
    rw [hrun] at hgrounded
    cases stop with
    | exhausted => exact ⟨rfl, hgrounded⟩
    | refused e =>
      refine ⟨?_, hgrounded.imp id ?_⟩
      · simp [displacedResult, Stop.moved, Cursor.displaced, resume_moved]
      · rintro ⟨ts, eof, hrest, heof⟩
        obtain ⟨ts', hresume⟩ := resume_append heof ts
        refine ⟨ts', eof, ?_, heof⟩
        rw [← hresume, ← hrest]
        rfl

end Shifts

open Shifts

/-- Two readers of expressions, the second elsewhere. -/
abbrev ShiftsExpr (move : Position → Position) (k : Nat)
    (r r' : Reader Expr) : Prop :=
  Shifts move k (Expr.displaced move k) r r'

/-- Two readers of statements, the second elsewhere. -/
abbrev ShiftsStmt (move : Position → Position) (k : Nat)
    (r r' : Reader Stmt) : Prop :=
  Shifts move k (Stmt.displaced move k) r r'

-- ========================================================== expressions

/-- With this budget, every reader of expressions shifts. -/
structure ExprsShift (move : Position → Position) (k budget : Nat) :
    Prop where
  expression : ShiftsExpr move k (expression budget) (expression budget)
  joined : ∀ level, ShiftsExpr move k (joined budget level)
    (joined budget level)
  joinedMore : ∀ level left, ShiftsExpr move k
    (joinedMore budget level left)
    (joinedMore budget level (left.displaced move k))
  operand : ∀ level, ShiftsExpr move k (operand budget level)
    (operand budget level)
  unary : ShiftsExpr move k (unary budget) (unary budget)
  called : ShiftsExpr move k (called budget) (called budget)
  calledMore : ∀ callee, ShiftsExpr move k (calledMore budget callee)
    (calledMore budget (callee.displaced move k))
  arguments : Shifts move k (Expr.mapAll (.displaced move k))
    (arguments budget) (arguments budget)
  primary : ShiftsExpr move k (primary budget) (primary budget)

/-- Whatever reads an expression reads the same elsewhere, by induction on the
budget. A rule of the grammar uses only the steps above and readers with less
budget. -/
theorem exprsShift (move : Position → Position) (k budget : Nat) :
    ExprsShift move k budget := by
  -- The induction is on the budget, and both runs spend it alike.
  induction budget with
  | zero => constructor <;> intros <;> exact .throw _
  | succ budget ih =>
    constructor
    case expression =>
      refine .bind .current fun first => .bind (ih.joined .or) fun left =>
        .next .kind fun found => .ite ?_ (.pure left)
      refine .bind .take fun sign => .bind ih.expression fun value => ?_
      cases left with
      | var node name =>
        exact .bind (.node _) fun node =>
          .pure (Expr.assign node name value)
      | _ => exact .refuse _ _
    case joined =>
      intro level
      exact .bind (ih.operand level) fun left => ih.joinedMore level left
    case joinedMore =>
      intro level left
      refine .next .kind fun found => ?_
      cases level.connective? found with
      | none => exact .pure left
      | some op =>
        refine .bind .take fun sign => .bind (ih.operand level) fun right =>
          .bind (.node _) fun node => ?_
        have hjoin : (op.join node left right).displaced move k
            = op.join (node.displaced move k) (left.displaced move k)
                (right.displaced move k) := by
          cases op <;> rfl
        rw [← hjoin]
        exact ih.joinedMore level _
    case operand =>
      intro level
      unfold operand
      cases level.tighter? with
      | some tighter => exact ih.joined tighter
      | none => exact ih.unary
    case unary =>
      refine .next .kind fun found => ?_
      cases UnaryOp.ofKind? found with
      | none => exact ih.called
      | some op =>
        exact .bind .take fun sign => .bind ih.unary fun inner =>
          .bind (.node _) fun node => .pure (Expr.unary node op inner)
    case called =>
      exact .bind ih.primary fun callee => ih.calledMore callee
    case calledMore =>
      intro callee
      refine .next .kind fun found => .ite ?_ (.pure callee)
      -- What follows the arguments is the same with and without any.
      have hcall (opening : Token) (args : List Expr) :
          ShiftsExpr move k
            (do
              let _ ← expect .rightParen (.noClosing .arguments)
              let list ← node opening.pos
              calledMore budget
                (.call (← node opening.pos) list.id callee args))
            (do
              let _ ← expect .rightParen (.noClosing .arguments)
              let list ← node (move opening.pos)
              calledMore budget
                (.call (← node (move opening.pos)) list.id
                  (callee.displaced move k)
                  (Expr.mapAll (.displaced move k) args))) :=
        .bind (.expect _ fun _ => rfl) fun _ => .bind (.node _) fun list =>
          .bind (.node _) fun node =>
            ih.calledMore (.call node list.id callee args)
      have hnone : Shifts move k (Expr.mapAll (.displaced move k)) (pure [])
          (pure []) := .pure []
      refine .bind .take fun opening => .next .kind fun next => .ite ?_ ?_
      · exact .bind hnone fun args => hcall opening args
      · exact .bind ih.arguments fun args => hcall opening args
    case arguments =>
      refine .bind ih.expression fun first =>
        .next (.takeIf _) fun more => .ite ?_ (.pure [first])
      exact .bind ih.arguments fun others => .pure (first :: others)
    case primary =>
      refine .bind .current fun t => ?_
      have htoken :
          Literal.ofToken? (t.moved move) = Literal.ofToken? t := rfl
      simp only [htoken, Token.kind_moved, Token.lexeme_moved,
        Token.pos_moved]
      cases Literal.ofToken? t with
      | some value =>
        exact .bind .take fun _ => .bind (.node _) fun node =>
          .pure (Expr.literal node value)
      | none =>
        simp only
        split
        · exact .bind .take fun _ => .bind (.node _) fun node =>
            .pure (Expr.var node t.lexeme)
        · refine .bind .take fun _ => .bind ih.expression fun inner =>
            .next (.takeIf _) fun closed => .ite ?_ ?_
          · exact .bind (.node _) fun node => .pure (Expr.group node inner)
          · exact .bind .current fun _ => .refuse _ _
        · exact .refuse _ _

-- =========================================================== statements

section Simple

variable (move : Position → Position) (k budget : Nat)

/-- A declaration of a variable is the same elsewhere, with its name at the
name's other place. -/
theorem shifts_varDecl :
    ShiftsStmt move k (varDecl budget) (varDecl budget) := by
  have hexpression := (exprsShift move k budget).expression
  have hrest (word name : Token) (init : Option Expr) :
      ShiftsStmt move k
        (do
          let _ ← ending .variableDeclaration
          return .varDecl (← node word.pos) ⟨name.lexeme, name.pos⟩ init)
        (do
          let _ ← ending .variableDeclaration
          return .varDecl (← node (move word.pos))
            ⟨name.lexeme, move name.pos⟩
            (init.map (Expr.displaced move k))) :=
    .bind (.expect _ fun _ => rfl) fun _ => .bind (.node _) fun node =>
      .pure (Stmt.varDecl node ⟨name.lexeme, name.pos⟩ init)
  refine .bind .take fun word => .bind (.expect _ fun _ => rfl) fun name =>
    .next (.takeIf _) fun sign => .ite ?_ ?_
  · exact .bind (hexpression.map fun _ => rfl) fun init =>
      hrest word name init
  · exact .bind .none fun init => hrest word name init

/-- So is an expression that is a statement, whose node is at the first
token. -/
theorem shifts_exprStmt :
    ShiftsStmt move k (exprStmt budget) (exprStmt budget) :=
  .bind .current fun _ =>
    .bind (exprsShift move k budget).expression fun value =>
    .bind (.expect _ fun _ => rfl) fun _ => .bind (.node _) fun node =>
      .pure (Stmt.expr node value)

/-- So is a `print`, whose node is at the word. -/
theorem shifts_printStmt :
    ShiftsStmt move k (printStmt budget) (printStmt budget) :=
  .bind .take fun _ =>
    .bind (exprsShift move k budget).expression fun value =>
    .bind (.expect _ fun _ => rfl) fun _ => .bind (.node _) fun node =>
      .pure (Stmt.print node value)

/-- So is a `return`, with a value or without. -/
theorem shifts_retStmt :
    ShiftsStmt move k (retStmt budget) (retStmt budget) := by
  have hexpression := (exprsShift move k budget).expression
  have hrest (word : Token) (value : Option Expr) :
      ShiftsStmt move k
        (do
          let _ ← ending .returnValue
          return .ret (← node word.pos) value)
        (do
          let _ ← ending .returnValue
          return .ret (← node (move word.pos))
            (value.map (Expr.displaced move k))) :=
    .bind (.expect _ fun _ => rfl) fun _ => .bind (.node _) fun node =>
      .pure (Stmt.ret node value)
  refine .bind .take fun word => .next .kind fun found => .ite ?_ ?_
  · exact .bind .none fun value => hrest word value
  · exact .bind (hexpression.map fun _ => rfl) fun value => hrest word value

/-- Parameters are the same names at their other places. -/
theorem shifts_parameters :
    Shifts move k (List.map (·.moved move)) (parameters budget)
      (parameters budget) := by
  induction budget with
  | zero => exact .throw _
  | succ budget ih =>
    refine .bind (.expect _ fun _ => rfl) fun first =>
      .next (.takeIf _) fun more =>
        .ite ?_ (.pure [Name.mk first.lexeme first.pos])
    exact .bind ih fun others =>
      .pure (Name.mk first.lexeme first.pos :: others)

/-- The first clause of a `for` is a declaration, an expression or missing, as
it is here. -/
theorem shifts_forInit :
    Shifts move k (Option.map (Stmt.displaced move k)) (forInit budget)
      (forInit budget) := by
  refine .next (.takeIf _) fun ended => .ite (.pure none) ?_
  refine .next .kind fun found => .ite ?_ ?_
  · exact .bind (shifts_varDecl move k budget) fun s => .pure (some s)
  · exact .bind (shifts_exprStmt move k budget) fun s => .pure (some s)

/-- The second clause, where missing, is a literal at the place of the
semicolon, which is moved with it. -/
theorem shifts_forTest :
    ShiftsExpr move k (forTest budget) (forTest budget) := by
  refine .bind .current fun t => .ite ?_ (exprsShift move k budget).expression
  exact .bind (.node _) fun node => .pure (Expr.literal node (.bool true))

/-- The third clause is the same elsewhere, or missing in both. -/
theorem shifts_forStep :
    Shifts move k (Option.map (Expr.displaced move k)) (forStep budget)
      (forStep budget) := by
  refine .next .kind fun found => .ite (.pure none) ?_
  exact .bind (exprsShift move k budget).expression fun e => .pure (some e)

/-- The tree of the body makes up its nodes from the place of the loop, so it
has to be told the other place. -/
theorem shifts_forBody (pos : Position) (step : Option Expr) (body : Stmt) :
    ShiftsStmt move k (forBody pos step body)
      (forBody (move pos) (step.map (Expr.displaced move k))
        (body.displaced move k)) := by
  cases step with
  | none => exact .pure body
  | some e =>
    exact .bind (.node _) fun node => .bind (.node _) fun outer =>
      .pure (Stmt.block outer [body, .expr node e])

/-- So has the tree of the loop itself. -/
theorem shifts_forLoop (pos : Position) (init : Option Stmt) (test : Expr)
    (body : Stmt) :
    ShiftsStmt move k (forLoop pos init test body)
      (forLoop (move pos) (init.map (Stmt.displaced move k))
        (test.displaced move k) (body.displaced move k)) := by
  refine .bind (.node _) fun node => ?_
  cases init with
  | none => exact .pure (Stmt.loop node test body)
  | some first =>
    exact .bind (.node _) fun outer =>
      .pure (Stmt.block outer [first, .loop node test body])

end Simple

/-- The braces and what is in them, elsewhere. -/
def bracedDisplaced (move : Position → Position) (k : Nat)
    (braces : Node × List Stmt) : Node × List Stmt :=
  (braces.1.displaced move k, Stmt.allDisplaced move k braces.2)

/-- With this budget, every reader of statements shifts. -/
structure StmtsShift (move : Position → Position) (k budget : Nat) :
    Prop where
  declarations : ∀ ends, Shifts move k (Stmt.allDisplaced move k)
    (declarations ends budget) (declarations ends budget)
  declaration : Shifts move k (Option.map (Stmt.displaced move k))
    (declaration budget) (declaration budget)
  funDecl : ShiftsStmt move k (funDecl budget) (funDecl budget)
  statement : ShiftsStmt move k (statement budget) (statement budget)
  condStmt : ShiftsStmt move k (condStmt budget) (condStmt budget)
  loopStmt : ShiftsStmt move k (loopStmt budget) (loopStmt budget)
  forStmt : ShiftsStmt move k (forStmt budget) (forStmt budget)
  braced : Shifts move k (bracedDisplaced move k) (braced budget)
    (braced budget)

/-- Whatever reads a statement reads the same elsewhere, again by induction on
the budget. -/
theorem stmtsShift (move : Position → Position) (k budget : Nat) :
    StmtsShift move k budget := by
  -- The induction is on the budget again.
  induction budget with
  | zero => constructor <;> intros <;> exact .throw _
  | succ budget ih =>
    have hexpression := (exprsShift move k budget).expression
    constructor
    case declarations =>
      intro ends
      refine .next .kind fun found => .ite (.pure []) ?_
      refine .bind ih.declaration fun first =>
        .bind (ih.declarations ends) fun others => ?_
      have hall : Stmt.allDisplaced move k (first.toList ++ others)
          = (first.map (Stmt.displaced move k)).toList
            ++ Stmt.allDisplaced move k others := by
        cases first <;> rfl
      rw [← hall]
      exact .pure _
    case declaration =>
      refine .recovering (.next .kind fun found => ?_)
      split
      · exact ih.funDecl
      · exact shifts_varDecl move k budget
      · exact ih.statement
    case funDecl =>
      -- What follows the parameters is the same with and without any.
      have hrest (word name : Token) (params : List Name) :
          ShiftsStmt move k
            (functionRest budget word name params)
            (functionRest budget (word.moved move) (name.moved move)
              (params.map (·.moved move))) := by
        refine .bind (.expect _ fun _ => rfl) fun _ =>
          .bind .current fun opening => .ite ?_ (.refuse _ _)
        refine .bind ih.braced fun braces => .bind (.node _) fun list =>
          .bind (.node _) fun node => ?_
        let s := Stmt.funDecl node ⟨name.lexeme, name.pos⟩ list.id params
          braces.1 braces.2
        have hs : s.displaced move k = .funDecl (node.displaced move k)
            ⟨name.lexeme, move name.pos⟩ (list.displaced move k).id
            (params.map (·.moved move)) (braces.1.displaced move k)
            (Stmt.allDisplaced move k braces.2) := by
          simp only [s, Stmt.mapNodes]
          rfl
        have hpure : ShiftsStmt move k (pure s) (pure (s.displaced move k)) :=
          .pure s
        rw [hs] at hpure
        exact hpure
      rw [funDecl_succ]
      refine .bind .take fun word =>
        .bind (.expect _ fun _ => rfl) fun name =>
          .bind (.expect _ fun _ => rfl) fun _ =>
            .next .kind fun found => .ite ?_ ?_
      · exact hrest word name []
      · exact .bind (shifts_parameters move k budget) fun params =>
          hrest word name params
    case statement =>
      refine .next .kind fun found => ?_
      split
      · exact ih.forStmt
      · exact ih.condStmt
      · exact shifts_printStmt move k budget
      · exact shifts_retStmt move k budget
      · exact ih.loopStmt
      · exact .bind ih.braced fun braces =>
          .pure (Stmt.block braces.1 braces.2)
      · exact shifts_exprStmt move k budget
    case condStmt =>
      -- What is made in the end, with and without another branch.
      have hrest (word : Token) (test : Expr) (yes : Stmt)
          (no : Option Stmt) : ShiftsStmt move k
            (do return .cond (← node word.pos) test yes no)
            (do
              return .cond (← node (move word.pos)) (test.displaced move k)
                (yes.displaced move k)
                (no.map (Stmt.displaced move k))) := by
        refine .bind (.node _) fun node => ?_
        cases no with
        | none => exact .pure (Stmt.cond node test yes none)
        | some other => exact .pure (Stmt.cond node test yes (some other))
      refine .bind .take fun word => .bind (.expect _ fun _ => rfl) fun _ =>
        .bind hexpression fun test => .bind (.expect _ fun _ => rfl) fun _ =>
          .bind ih.statement fun yes => .next (.takeIf _) fun more =>
            .ite ?_ ?_
      · exact .bind (ih.statement.map fun _ => rfl) fun no =>
          hrest word test yes no
      · exact .bind .none fun no => hrest word test yes no
    case loopStmt =>
      exact .bind .take fun _ => .bind (.expect _ fun _ => rfl) fun _ =>
        .bind hexpression fun test => .bind (.expect _ fun _ => rfl) fun _ =>
          .bind ih.statement fun body => .bind (.node _) fun node =>
            .pure (Stmt.loop node test body)
    case forStmt =>
      exact .bind .take fun _ => .bind (.expect _ fun _ => rfl) fun _ =>
        .bind (shifts_forInit move k budget) fun init =>
          .bind (shifts_forTest move k budget) fun test =>
            .bind (.expect _ fun _ => rfl) fun _ =>
              .bind (shifts_forStep move k budget) fun step =>
                .bind (.expect _ fun _ => rfl) fun _ =>
                  .bind ih.statement fun body =>
                  .bind (shifts_forBody move k _ step body) fun inner =>
                    shifts_forLoop move k _ init test inner
    case braced =>
      refine .bind .take fun opening => .bind (ih.declarations _) fun body =>
        .next (.takeIf _) fun closed => .ite ?_ ?_
      · exact .bind (.node _) fun node => .pure (node, body)
      · exact .bind .current fun _ => .refuse _ _

end Reader

-- ============================================================== programs

/-- What is made of the tokens elsewhere. -/
def Parsed.displaced (move : Position → Position) (k : Nat) (p : Parsed) :
    Parsed :=
  ⟨(p.result.map (Stmt.allDisplaced move k)).mapError (.map (.moved move)),
    p.nextId + k⟩

/-- Tokens at other places, numbered from another number on, are accepted
or refused in the same way. -/
theorem parse_displaced (move : Position → Position) {tokens : List Token}
    (h : move .start = .start ∨
      ∃ ts eof, tokens = ts ++ [eof] ∧ eof.kind = .endOfText)
    (n k : Nat) :
    parse (tokens.map (·.moved move)) (n + k)
      = (parse tokens n).displaced move k := by
  have hstart : Cursor.Grounded move ⟨tokens, n, []⟩ := h
  obtain ⟨hread, hgrounded⟩ :=
    (Reader.stmtsShift move k (nestingBudget tokens)).declarations
      Reader.endsProgram _ hstart
  have hbudget : nestingBudget (tokens.map (·.moved move))
      = nestingBudget tokens := by
    rw [nestingBudget, List.length_map, ← nestingBudget]
  unfold parse
  simp only
  rw [hbudget, show (⟨tokens.map (·.moved move), n + k, []⟩ : Cursor)
    = Cursor.displaced move k ⟨tokens, n, []⟩ from rfl, hread]
  cases hrun : Reader.declarations Reader.endsProgram (nestingBudget tokens)
      ⟨tokens, n, []⟩ with
  | ok program c =>
    simp only [Reader.displacedResult, Cursor.displaced,
      Diagnostics.ofList?_map]
    cases Diagnostics.ofList? c.errors <;> rfl
  | error stop c =>
    rw [hrun] at hgrounded
    cases stop with
    | refused e => rfl
    | exhausted =>
      have hcurrent : (c.displaced move k).current = c.current.moved move :=
        Cursor.current_displaced hgrounded
      simp only [Reader.displacedResult, Stop.moved, hcurrent]
      rfl

/-- A place that every move leaves alone that leaves the tokens alone is
the place of a token. -/
theorem exists_token_of_fixed {tokens : List Token} {p : Position}
    (h : ∀ move : Position → Position,
      (∀ t ∈ tokens, move t.pos = t.pos) → move p = p) :
    ∃ t ∈ tokens, p = t.pos := by
  by_cases hp : p ∈ tokens.map (·.pos)
  · obtain ⟨t, ht, hpos⟩ := List.mem_map.1 hp
    exact ⟨t, ht, hpos.symm⟩
  · -- a move of this place alone
    have hfixed := h (fun q => if q = p then p.advance ' ' else q)
      fun t ht => if_neg fun heq => hp (List.mem_map.2 ⟨t, ht, heq⟩)
    have hoffset := congrArg Position.offset hfixed
    simp [Position.advance] at hoffset

/-- The errors of a text, and the parentheses that they name, stand at
tokens of it. -/
theorem pos_of_parse_error {ts : List Token} {eof : Token} {n : Nat}
    {errors : Diagnostics SyntaxError} (heof : eof.kind = .endOfText)
    (h : (parse (ts ++ [eof]) n).result = .error errors) :
    ∀ e ∈ errors.toList, (∃ t ∈ ts ++ [eof], e.pos = t.pos) ∧
      ∀ opened, e.fault = .openGroup opened →
        ∃ t ∈ ts ++ [eof], opened = t.pos := by
  -- A move that leaves the tokens alone leaves the errors alone.
  have hfixed (move : Position → Position)
      (hmove : ∀ t ∈ ts ++ [eof], move t.pos = t.pos) :
      ∀ e ∈ errors.toList, e.moved move = e := by
    have hsame : (ts ++ [eof]).map (·.moved move) = ts ++ [eof] := by
      rw [← List.map_id (ts ++ [eof]), List.map_map]
      refine List.map_congr_left fun t ht => ?_
      simp only [Function.comp_apply, id_eq, Token.moved, hmove t ht]
    have hparse := parse_displaced move (.inr ⟨ts, eof, rfl, heof⟩) n 0
    rw [hsame] at hparse
    have hresult := congrArg Parsed.result hparse
    simp only [Nat.add_zero, Parsed.displaced, h] at hresult
    injection hresult with herrors
    have hlist : errors.toList.map id = errors.toList.map (·.moved move) := by
      rw [List.map_id, ← Diagnostics.toList_map, ← herrors]
    exact fun e he => (List.map_inj_left.1 hlist e he).symm
  intro e he
  refine ⟨exists_token_of_fixed fun move hmove => ?_,
    fun opened hopened => exists_token_of_fixed fun move hmove => ?_⟩
  · exact congrArg SyntaxError.pos (hfixed move hmove e he)
  · have hfault := congrArg SyntaxError.fault (hfixed move hmove e he)
    simp only [SyntaxError.moved, hopened, SyntaxFault.moved] at hfault
    injection hfault

end Lox
