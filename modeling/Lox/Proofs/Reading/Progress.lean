/-
Reading makes progress. Whatever the tokens, a reader that has enough
budget ends or is refused with the end of the text still ahead, and what
it has taken pays for what it has reported: no more errors than tokens,
and one token to spare if it ends (`Settled`). A statement that is
refused may have used up its spare token, or have taken none. But then
the recovery takes one, so every declaration takes a token, with a fault
or without (`declaration_settled`), and the loops over declarations come
to their ends.

# The budget

Between two tokens that are taken, readers only call readers that stand
lower. So each has a height, the budget that it needs before its first
token, all heights are less than 32, and 32 more for each token that is
left are enough.

A reading is counted from where its construct starts. Behind the first
token of it everything is alike: there is a token to spare, and budget
for a reader of any height (`Settled.later`).
-/
import Lox.Proofs.Reading.Parse

namespace Lox

-- ============================================================== cursors

namespace Cursor

/-- Between the cursors these tokens were taken, the end of the text not
among them, and these errors were met. -/
structure Passes (c : Cursor) (taken : List Token) (met : List SyntaxError)
    (c' : Cursor) : Prop where
  rest : c.rest = taken ++ c'.rest
  inside : ∀ t ∈ taken, t.kind ≠ .endOfText
  errors : c'.errors = c.errors ++ met

/-- The tokens that were taken pay for the errors that were met, with so
many to spare. -/
def Pays (c : Cursor) (spare : Nat) (c' : Cursor) : Prop :=
  ∃ taken met, c.Passes taken met c' ∧ met.length + spare ≤ taken.length

/-- There is a token to spare, or nothing has happened. -/
def Spares (c c' : Cursor) : Prop :=
  ∃ taken met, c.Passes taken met c' ∧ met.length ≤ taken.length - 1

/-- At least one token was taken, and at least one for each error. -/
def Advances (c c' : Cursor) : Prop :=
  ∃ taken met, c.Passes taken met c' ∧ met.length ≤ taken.length ∧
    taken ≠ []

variable {c c₁ c₂ : Cursor} {taken taken' : List Token}
  {met met' : List SyntaxError} {spare spare' : Nat}

namespace Passes

/-- From a cursor to itself nothing was taken and nothing met. -/
theorem refl (c : Cursor) : c.Passes [] [] c := ⟨rfl, by simp, by simp⟩

/-- One stretch behind another: what was taken and met adds up. -/
theorem trans (h : c.Passes taken met c₁) (h' : c₁.Passes taken' met' c₂) :
    c.Passes (taken ++ taken') (met ++ met') c₂ where
  rest := by rw [h.rest, h'.rest, List.append_assoc]
  inside t ht := (List.mem_append.1 ht).elim (h.inside t) (h'.inside t)
  errors := by rw [h'.errors, h.errors, List.append_assoc]

/-- What was taken is what is missing afterwards. -/
theorem length (h : c.Passes taken met c₁) :
    c.rest.length = taken.length + c₁.rest.length := by
  rw [h.rest, List.length_append]

/-- One token. -/
theorem advance (h : c.current.kind ≠ .endOfText) :
    c.Passes [c.current] [] c.advance where
  rest := rest_eq_current_cons_advance h
  inside := by simpa using h
  errors := by simp

/-- What is left still ends with the end of the text. -/
theorem ends {ts : List Token} {eof : Token} (h : c.Passes taken met c₁)
    (hrest : c.rest = ts ++ [eof]) (heof : eof.kind = .endOfText) :
    ∃ ts', c₁.rest = ts' ++ [eof] ∧ ts = taken ++ ts' := by
  have hsplit := h.rest.symm.trans hrest
  rcases List.append_eq_append_iff.1 hsplit with
    ⟨ts', hts, hends⟩ | ⟨more, htaken, hends⟩
  · exact ⟨ts', hends, hts⟩
  · cases more with
    | nil => exact ⟨[], by simpa using hends.symm, by simpa using htaken.symm⟩
    | cons t more =>
      have ht : t = eof := by
        simp only [List.cons_append, List.cons.injEq] at hends
        exact hends.1.symm
      exact absurd (ht ▸ heof) (h.inside t (by simp [htaken]))

end Passes

namespace Pays

/-- Nothing was taken, so nothing is to spare. -/
theorem refl (c : Cursor) : c.Pays 0 c := ⟨[], [], .refl c, by simp⟩

/-- What two stretches have to spare adds up. -/
theorem trans (h : c.Pays spare c₁) (h' : c₁.Pays spare' c₂) :
    c.Pays (spare + spare') c₂ := by
  obtain ⟨taken, met, hpasses, hle⟩ := h
  obtain ⟨taken', met', hpasses', hle'⟩ := h'
  refine ⟨_, _, hpasses.trans hpasses', ?_⟩
  simp only [List.length_append]
  omega

/-- What is to spare need not be used. -/
theorem weaken (h : c.Pays spare c₁) (hle : spare' ≤ spare) :
    c.Pays spare' c₁ := by
  obtain ⟨taken, met, hpasses, hpays⟩ := h
  exact ⟨taken, met, hpasses, by omega⟩

/-- Taking a token leaves one to spare. -/
theorem advance (h : c.current.kind ≠ .endOfText) : c.Pays 1 c.advance :=
  ⟨_, _, .advance h, by simp⟩

/-- Numbering a node takes nothing. -/
theorem number (h : c.Pays spare c₁) (n : Nat) :
    c.Pays spare { c₁ with nextId := n } := by
  obtain ⟨taken, met, ⟨hrest, hinside, herrors⟩, hpays⟩ := h
  exact ⟨taken, met, ⟨hrest, hinside, herrors⟩, hpays⟩

/-- Each token to spare is one less that is left. -/
theorem length (h : c.Pays spare c₁) :
    c₁.rest.length + spare ≤ c.rest.length := by
  obtain ⟨taken, met, hpasses, hpays⟩ := h
  have := hpasses.length
  omega

end Pays

/-- Nothing has happened. -/
theorem Spares.refl (c : Cursor) : c.Spares c := ⟨[], [], .refl c, by simp⟩

/-- Behind a token to spare, whatever spares one or does nothing leaves one to
spare. -/
theorem Pays.spares (h : c.Pays 1 c₁) (h' : c₁.Spares c₂) : c.Spares c₂ := by
  obtain ⟨taken, met, hpasses, hle⟩ := h
  obtain ⟨taken', met', hpasses', hle'⟩ := h'
  refine ⟨_, _, hpasses.trans hpasses', ?_⟩
  simp only [List.length_append]
  omega

/-- A token to spare is a token that was taken. -/
theorem Pays.advances (h : c.Pays 1 c₁) : c.Advances c₁ := by
  obtain ⟨taken, met, hpasses, hle⟩ := h
  refine ⟨taken, met, hpasses, by omega, ?_⟩
  rintro rfl
  simp at hle

/-- Where there is a token for each error, nothing is owed. -/
theorem Advances.pays (h : c.Advances c₁) : c.Pays 0 c₁ := by
  obtain ⟨taken, met, hpasses, hle, -⟩ := h
  exact ⟨taken, met, hpasses, hle⟩

/-- To advance brings the end of the text nearer, which is why the loops over
declarations end. -/
theorem Advances.length_lt (h : c.Advances c₁) :
    c₁.rest.length < c.rest.length := by
  obtain ⟨taken, met, hpasses, -, hne⟩ := h
  have := hpasses.length
  have := List.length_pos_iff.2 hne
  omega

end Cursor

-- =============================================================== levels

/-- There are seven levels, so there is room for all of them in the height of
an expression. -/
theorem Level.tightness_le (level : Level) : level.tightness ≤ 6 := by
  cases level <;> decide

/-- A tighter level stands lower by two: one step for its operands, and one
for those of the next. -/
theorem Level.tightness_of_tighter {level tighter : Level}
    (h : level.tighter? = some tighter) :
    tighter.tightness = level.tightness + 1 := by
  cases level <;> cases h <;> rfl

namespace Reader

-- =============================================================== outcomes

variable {α β : Type} {c c₁ : Cursor} {r : Reader α} {f : α → Reader β}
  {spare : Nat}

/-- A reading from this cursor has not used up its budget, and its tokens
pay for its errors: if it ended, with so many to spare. -/
def Settled (spare : Nat) (c : Cursor) :
    EStateM.Result Stop Cursor α → Prop
  | .ok _ c' => c.Pays spare c'
  | .error (.refused _) c' => c.Spares c'
  | .error .exhausted _ => False

namespace Settled

/-- A reader that has a token to spare may as well have none. -/
theorem weaken {result : EStateM.Result Stop Cursor α}
    (h : Settled 1 c result) : Settled 0 c result := by
  match result, h with
  | .ok _ _, h => exact Cursor.Pays.weaken h (by omega)
  | .error (.refused _) _, h => exact h

/-- Refused behind a first token, or before anything was taken. -/
theorem refuse {fault : SyntaxFault} {pos : Position} (h : c.Pays 1 c₁) :
    Settled spare c ((refuse fault pos : Reader α) c₁) :=
  h.spares (.refl c₁)

/-- A first reader, with what follows it. -/
theorem first (h : Settled 1 c (r c))
    (hf : ∀ a c₂, c.Pays 1 c₂ → Settled spare c (f a c₂)) :
    Settled spare c ((r >>= f) c) := by
  rw [Sequencing.bind_apply]
  match r c, h with
  | .ok a c₂, h => exact hf a c₂ h
  | .error (.refused _) _, h => exact h

/-- The last reader of a construct. -/
theorem last {result : EStateM.Result Stop Cursor α} (h : c.Pays 1 c₁)
    (hr : Settled spare c₁ result) : Settled 1 c result := by
  match result, hr with
  | .ok _ _, hr => exact (h.trans hr).weaken (by omega)
  | .error (.refused _) _, hr => exact h.spares hr

/-- A reader behind a first token, with what follows it. -/
theorem later {need : Nat} (h : c.Pays 1 c₁) (hr : Settled need c₁ (r c₁))
    (hf : ∀ a c₂, c.Pays 1 c₂ → Settled spare c (f a c₂)) :
    Settled spare c ((r >>= f) c₁) := by
  rw [Sequencing.bind_apply]
  match r c₁, hr with
  | .ok a c₂, hr => exact hf a c₂ ((h.trans hr).weaken (by omega))
  | .error (.refused _) _, hr => exact h.spares hr

/-- The first token of a construct. -/
theorem take {f : Token → Reader β} (h : c.current.kind ≠ .endOfText)
    (hf : c.Pays 1 c.advance → Settled spare c (f c.current c.advance)) :
    Settled spare c ((Reader.take >>= f) c) :=
  hf (.advance h)

/-- A token that was asked for, behind the first. -/
theorem expect {f : Token → Reader β} {wanted : TokenKind}
    {fault : TokenKind → SyntaxFault} (h : c.Pays 1 c₁)
    (hwanted : wanted ≠ .endOfText)
    (hf : ∀ t c₂, c.Pays 1 c₂ → Settled spare c (f t c₂)) :
    Settled spare c ((Reader.expect wanted fault >>= f) c₁) := by
  rw [expect_bind]
  split
  · rename_i hkind
    exact hf _ _ ((h.trans (.advance (hkind ▸ hwanted))).weaken (by omega))
  · exact refuse h

/-- A token that may stand behind the first. -/
theorem takeIf {f : Bool → Reader β} {wanted : TokenKind} (h : c.Pays 1 c₁)
    (hwanted : wanted ≠ .endOfText)
    (hf : ∀ found c₂, c.Pays 1 c₂ → Settled spare c (f found c₂)) :
    Settled spare c ((Reader.takeIf wanted >>= f) c₁) := by
  rw [takeIf_bind]
  split
  · rename_i hkind
    exact hf _ _ ((h.trans (.advance (hkind ▸ hwanted))).weaken (by omega))
  · exact hf _ _ h

/-- What is made of a result takes no tokens. -/
theorem map {g : α → β}
    (h : Settled spare c (r c₁)) : Settled spare c ((g <$> r) c₁) := by
  rw [map_eq_pure_bind, Sequencing.bind_apply]
  match r c₁, h with
  | .ok _ _, h => exact h
  | .error (.refused _) _, h => exact h

end Settled

-- ============================================================ expressions

/-- With this budget, every reader of expressions that can afford its
tokens settles. -/
structure ExprsSettle (budget : Nat) : Prop where
  expression : ∀ c : Cursor, 32 * c.rest.length + 16 ≤ budget →
    Settled 1 c (expression budget c)
  joined : ∀ (level : Level) (c : Cursor),
    32 * c.rest.length + (17 - 2 * level.tightness) ≤ budget →
    Settled 1 c (joined budget level c)
  joinedMore : ∀ (level : Level) (left : Expr) (c : Cursor),
    32 * c.rest.length + 1 ≤ budget →
    Settled 0 c (joinedMore budget level left c)
  operand : ∀ (level : Level) (c : Cursor),
    32 * c.rest.length + (16 - 2 * level.tightness) ≤ budget →
    Settled 1 c (operand budget level c)
  unary : ∀ c : Cursor, 32 * c.rest.length + 3 ≤ budget →
    Settled 1 c (unary budget c)
  called : ∀ c : Cursor, 32 * c.rest.length + 2 ≤ budget →
    Settled 1 c (called budget c)
  calledMore : ∀ (callee : Expr) (c : Cursor),
    32 * c.rest.length + 1 ≤ budget →
    Settled 0 c (calledMore budget callee c)
  arguments : ∀ c : Cursor, 32 * c.rest.length + 17 ≤ budget →
    Settled 1 c (arguments budget c)
  primary : ∀ c : Cursor, 32 * c.rest.length + 1 ≤ budget →
    Settled 1 c (primary budget c)

section Expressions

variable {budget : Nat} (ih : ExprsSettle budget)

include ih

/-- An expression takes a token, for the first thing in it does. Of its
readers it stands highest. -/
theorem settled_expression (hc : 32 * c.rest.length + 16 ≤ budget + 1) :
    Settled 1 c (expression (budget + 1) c) := by
  rw [expression, current_bind]
  refine .first (ih.joined .or c (by simp only [Level.tightness]; omega))
    fun left c₁ h₁ => ?_
  have hlength := h₁.length
  rw [kind_bind, run_ite]
  split
  case isFalse => exact h₁
  case isTrue hkind =>
  have h₂ := (h₁.trans (.advance (by rw [hkind]; decide))).weaken
    (show 1 ≤ 1 + 1 by omega)
  rw [take_bind]
  refine .later h₂ (ih.expression _ (by have := h₂.length; omega))
    fun value c₃ h₃ => ?_
  cases left with
  | var node name => exact h₃.number _
  | _ => exact .refuse h₃

/-- Operands of a level stand above those of a tighter level, which are tried
first. -/
theorem settled_joined (level : Level)
    (hc : 32 * c.rest.length + (17 - 2 * level.tightness) ≤ budget + 1) :
    Settled 1 c (joined (budget + 1) level c) := by
  rw [joined]
  have htight := level.tightness_le
  refine .first (ih.operand level c (by omega)) fun left c₁ h₁ => ?_
  exact .last h₁ (ih.joinedMore level left c₁
    (by have := h₁.length; omega))

/-- Further operands may be missing, so nothing is to spare. Where one comes,
its operator is taken first. -/
theorem settled_joinedMore (level : Level) (left : Expr)
    (hc : 32 * c.rest.length + 1 ≤ budget + 1) :
    Settled 0 c (joinedMore (budget + 1) level left c) := by
  rw [joinedMore, kind_bind]
  cases hop : level.connective? c.current.kind with
  | none => exact .refl c
  | some op =>
    refine .weaken (.take (Level.kind_ne_end hop) fun h₁ => ?_)
    refine .later h₁ (ih.operand level _ (by have := h₁.length; omega))
      fun right c₂ h₂ => ?_
    exact .last (h₂.number _) (ih.joinedMore level _ _
      (by have := h₂.length; simp only; omega))

/-- An operand is one of a tighter level, or one with signs in front at
last. -/
theorem settled_operand (level : Level)
    (hc : 32 * c.rest.length + (16 - 2 * level.tightness) ≤ budget + 1) :
    Settled 1 c (operand (budget + 1) level c) := by
  rw [operand]
  cases htighter : level.tighter? with
  | some tighter =>
    have htight := tighter.tightness_le
    have hnext := Level.tightness_of_tighter htighter
    exact ih.joined tighter c (by omega)
  | none =>
    have htight := level.tightness_le
    exact ih.unary c (by omega)

/-- A sign in front is taken before its operand is read; without one, the
reader below takes a token. -/
theorem settled_unary (hc : 32 * c.rest.length + 3 ≤ budget + 1) :
    Settled 1 c (unary (budget + 1) c) := by
  rw [unary, kind_bind]
  cases hop : UnaryOp.ofKind? c.current.kind with
  | none => exact ih.called c (by omega)
  | some op =>
    refine .take (UnaryOp.kind_ne_end hop) fun h₁ => ?_
    exact .later h₁ (ih.unary _ (by have := h₁.length; omega))
      fun inner c₂ h₂ => h₂.number _

/-- A callee takes a token, whatever is behind it. -/
theorem settled_called (hc : 32 * c.rest.length + 2 ≤ budget + 1) :
    Settled 1 c (called (budget + 1) c) := by
  rw [called]
  refine .first (ih.primary c (by omega)) fun callee c₁ h₁ => ?_
  exact .last h₁ (ih.calledMore callee c₁ (by have := h₁.length; omega))

/-- Lists of arguments may be missing. Where one comes, its parenthesis is
taken first. -/
theorem settled_calledMore (callee : Expr)
    (hc : 32 * c.rest.length + 1 ≤ budget + 1) :
    Settled 0 c (calledMore (budget + 1) callee c) := by
  rw [calledMore, kind_bind, run_ite]
  split
  case isFalse => exact .refl c
  case isTrue hkind =>
  refine .weaken (.take (by rw [hkind]; decide) fun h₁ => ?_)
  have hlist (args : List Expr) (c₂ : Cursor) (h₂ : c.Pays 1 c₂) :
      Settled 1 c ((do
        let _ ← expect .rightParen (.noClosing .arguments)
        let list ← node c.current.pos
        calledMore budget
          (.call (← node c.current.pos) list.id callee args)) c₂) := by
    refine .expect h₂ (by decide) fun _ c₃ h₃ => ?_
    exact .last ((h₃.number _).number _) (ih.calledMore _ _
      (by have := h₃.length; simp only; omega))
  rw [kind_bind]
  split
  · exact hlist [] _ h₁
  · exact .later h₁ (ih.arguments _ (by have := h₁.length; omega)) hlist

/-- The first argument takes a token, and each comma pays for the next. -/
theorem settled_arguments (hc : 32 * c.rest.length + 17 ≤ budget + 1) :
    Settled 1 c (arguments (budget + 1) c) := by
  rw [arguments]
  refine .first (ih.expression c (by omega)) fun first c₁ h₁ => ?_
  refine .takeIf h₁ (by decide) fun more c₂ h₂ => ?_
  rw [run_ite]
  split
  · exact .later h₂ (ih.arguments _ (by have := h₂.length; omega))
      fun others c₃ h₃ => h₃
  · exact h₂

/-- A primary expression begins with a token of its own, or is refused at the
token at hand without having taken it. -/
theorem settled_primary (hc : 32 * c.rest.length + 1 ≤ budget + 1) :
    Settled 1 c (primary (budget + 1) c) := by
  rw [primary, current_bind]
  cases hvalue : Literal.ofToken? c.current with
  | some value =>
    exact .take (Literal.kind_ne_end hvalue) fun h₁ => h₁.number _
  | none =>
    simp only
    cases hkind : c.current.kind with
    | identifier =>
      exact .take (by rw [hkind]; decide) fun h₁ => h₁.number _
    | leftParen =>
      refine .take (by rw [hkind]; decide) fun h₁ => ?_
      refine .later h₁ (ih.expression _ (by have := h₁.length; omega))
        fun inner c₂ h₂ => .takeIf h₂ (by decide) fun closed c₃ h₃ => ?_
      rw [run_ite]
      split
      · exact h₃.number _
      · exact .refuse h₃
    | _ => exact .refl c

end Expressions

/-- All readers of expressions settle, by induction on the budget. -/
theorem exprsSettle (budget : Nat) : ExprsSettle budget := by
  induction budget with
  | zero =>
    constructor
    case joined | operand =>
      intro level c hc
      have htight := level.tightness_le
      omega
    all_goals intros; omega
  | succ budget ih =>
    exact {
      expression := fun _ => settled_expression ih
      joined := fun level _ => settled_joined ih level
      joinedMore := fun level left _ => settled_joinedMore ih level left
      operand := fun level _ => settled_operand ih level
      unary := fun _ => settled_unary ih
      called := fun _ => settled_called ih
      calledMore := fun callee _ => settled_calledMore ih callee
      arguments := fun _ => settled_arguments ih
      primary := fun _ => settled_primary ih }

-- ============================================================= statements

section Simple

variable {budget : Nat}

/-- Behind a first token there is room for an expression. -/
theorem settled_inner (h₁ : c.Pays 1 c₁) (hc : 32 * c.rest.length ≤ budget) :
    Settled 1 c₁ (expression budget c₁) :=
  (exprsSettle budget).expression c₁ (by have := h₁.length; omega)

/-- A declaration has taken its word before anything can be missing. -/
theorem settled_varDecl (hc : 32 * c.rest.length ≤ budget)
    (hword : c.current.kind ≠ .endOfText) :
    Settled 1 c (varDecl budget c) := by
  have hrest (word name : Token) (init : Option Expr) (c₁ : Cursor)
      (h₁ : c.Pays 1 c₁) :
      Settled 1 c ((do
        let _ ← ending .variableDeclaration
        return Stmt.varDecl (← node word.pos) ⟨name.lexeme, name.pos⟩
          init) c₁) :=
    .expect h₁ (by decide) fun _ c₂ h₂ => h₂.number _
  refine .take hword fun h₁ => .expect h₁ (by decide) fun name c₂ h₂ =>
    .takeIf h₂ (by decide) fun sign c₃ h₃ => ?_
  rw [run_ite]
  split
  · exact .later h₃ (settled_inner h₃ hc).map fun init => hrest _ name init
  · exact hrest _ name none c₃ h₃

/-- An expression as a statement takes what the expression takes. -/
theorem settled_exprStmt (hc : 32 * c.rest.length + 16 ≤ budget) :
    Settled 1 c (exprStmt budget c) := by
  rw [exprStmt, current_bind]
  exact .first ((exprsSettle budget).expression c hc) fun value c₁ h₁ =>
    .expect h₁ (by decide) fun _ c₂ h₂ => h₂.number _

/-- A `print` has taken its word. -/
theorem settled_printStmt (hc : 32 * c.rest.length ≤ budget)
    (hword : c.current.kind ≠ .endOfText) :
    Settled 1 c (printStmt budget c) := by
  exact .take hword fun h₁ => .later h₁ (settled_inner h₁ hc)
    fun value c₂ h₂ => .expect h₂ (by decide) fun _ c₃ h₃ => h₃.number _

/-- A `return` has taken its word, with a value behind it or without. -/
theorem settled_retStmt (hc : 32 * c.rest.length ≤ budget)
    (hword : c.current.kind ≠ .endOfText) :
    Settled 1 c (retStmt budget c) := by
  have hrest (word : Token) (value : Option Expr) (c₁ : Cursor)
      (h₁ : c.Pays 1 c₁) :
      Settled 1 c ((do
        let _ ← ending .returnValue
        return Stmt.ret (← node word.pos) value) c₁) :=
    .expect h₁ (by decide) fun _ c₂ h₂ => h₂.number _
  refine .take hword fun h₁ => ?_
  rw [kind_bind]
  split
  · exact hrest _ none _ h₁
  · exact .later h₁ (settled_inner h₁ hc).map fun value => hrest _ value

/-- Parameters take a name each, by induction on the budget, of which each
takes a step. -/
theorem settled_parameters :
    ∀ {budget : Nat} {c : Cursor}, 32 * c.rest.length + 1 ≤ budget →
      Settled 1 c (parameters budget c)
  | 0, c, hc => by omega
  | budget + 1, c, hc => by
    rw [parameters, expect_bind]
    split
    case isFalse => exact .refl c
    case isTrue hkind =>
    refine .takeIf (.advance (by rw [hkind]; decide)) (by decide)
      fun more c₂ h₂ => ?_
    rw [run_ite]
    split
    · have hothers : Settled 1 c₂ (parameters budget c₂) :=
        settled_parameters (by have := h₂.length; omega)
      exact .later h₂ hothers fun others c₃ h₃ => h₃
    · exact h₂

/-- A first clause takes at least its semicolon. -/
theorem settled_forInit (hc : 32 * c.rest.length + 16 ≤ budget) :
    Settled 1 c (forInit budget c) := by
  rw [forInit, takeIf_bind]
  split
  case isTrue hkind => exact .advance (by rw [hkind]; decide)
  case isFalse =>
  simp only [Bool.false_eq_true, ↓reduceIte, kind_bind]
  rw [run_ite]
  split
  case isTrue hkind =>
    exact .first (settled_varDecl (by omega) (by rw [hkind]; decide))
      fun first c₁ h₁ => h₁
  case isFalse =>
    exact .first (settled_exprStmt hc) fun first c₁ h₁ => h₁

/-- A second clause may be missing, and then takes nothing: the semicolon
behind it is not its own. -/
theorem settled_forTest (hc : 32 * c.rest.length + 16 ≤ budget) :
    Settled 0 c (forTest budget c) := by
  rw [forTest, current_bind, run_ite]
  split
  · exact (Cursor.Pays.refl c).number _
  · exact .weaken ((exprsSettle budget).expression c hc)

/-- A third clause may be missing as well. -/
theorem settled_forStep (hc : 32 * c.rest.length + 16 ≤ budget) :
    Settled 0 c (forStep budget c) := by
  rw [forStep, kind_bind, run_ite]
  split
  · exact .refl c
  · exact .weaken (.first ((exprsSettle budget).expression c hc)
      fun e c₁ h₁ => h₁)

/-- To make up the trees of a `for` takes no token, only numbers for the
nodes. -/
theorem settled_forBody {pos : Position} {step : Option Expr} {body : Stmt} :
    Settled 0 c (forBody pos step body c) := by
  cases step with
  | none => exact .refl c
  | some e => exact ((Cursor.Pays.refl c).number _).number _

/-- The same for the loop around its body. -/
theorem settled_forLoop {pos : Position} {init : Option Stmt} {test : Expr}
    {body : Stmt} : Settled 0 c (forLoop pos init test body c) := by
  cases init with
  | none => exact (Cursor.Pays.refl c).number _
  | some first => exact ((Cursor.Pays.refl c).number _).number _

end Simple

-- ============================================================== recovery

/-- Taking reading up again moves on to tokens that are left, behind the
token of the fault. -/
theorem resume_eq (tokens : List Token) :
    ∃ skipped, tokens = skipped ++ resume tokens ∧
      (∀ t ∈ skipped, t.kind ≠ .endOfText) ∧
      (∀ t ∈ tokens.head?, t.kind ≠ .endOfText → skipped ≠ []) := by
  fun_induction resume tokens with
  | case1 => exact ⟨[], rfl, by simp, by simp⟩
  | case2 t rest hend => exact ⟨[], rfl, by simp, by simp [hend]⟩
  | case3 t rest hend hsemicolon => exact ⟨[t], rfl, by simpa, by simp⟩
  | case4 t hend => exact ⟨[t], rfl, by simpa, by simp⟩
  | case5 t hend hsemicolon next rest => exact ⟨[t], rfl, by simpa, by simp⟩
  | case6 t hend hsemicolon next rest hopens ih =>
    obtain ⟨skipped, hrest, hinside, -⟩ := ih
    refine ⟨t :: skipped, by rw [List.cons_append, ← hrest], ?_, by simp⟩
    exact List.forall_mem_cons.2 ⟨hend, hinside⟩

/-- From a cursor before the end of the text the outcome is no fault, and
a token was taken. -/
def Recovers (c : Cursor) (result : EStateM.Result Stop Cursor α) : Prop :=
  ∃ a c', result = .ok a c' ∧ c.Advances c'

/-- Recovering, a reader takes a token also where it is refused. -/
theorem Settled.recovering {r : Reader Stmt} (h : Settled 1 c (r c))
    (hc : c.current.kind ≠ .endOfText) :
    Recovers c (Reader.recovering r c) := by
  unfold Reader.recovering
  match r c, h with
  | .ok s c₁, h => exact ⟨some s, c₁, rfl, h.advances⟩
  | .error (.refused e) c₁, ⟨taken, met, hpasses, hle⟩ =>
    obtain ⟨skipped, hrest, hinside, hskips⟩ := resume_eq c₁.rest
    refine ⟨none, _, rfl, taken ++ skipped, met ++ [e], ⟨?_, ?_, ?_⟩, ?_⟩
    · rw [hpasses.rest, List.append_assoc, ← hrest]
    · exact fun t ht => (List.mem_append.1 ht).elim (hpasses.inside t)
        (hinside t)
    · rw [hpasses.errors, List.append_assoc]
    · -- refused at the first token, it is at that token still
      have hpos : 0 < (taken ++ skipped).length := by
        refine List.length_pos_iff.2 fun hnil => ?_
        obtain ⟨rfl, hskipped⟩ := List.append_eq_nil_iff.1 hnil
        have hsame : c₁.rest = c.rest := hpasses.rest.symm
        refine hskips c.current ?_ hc hskipped
        rw [hsame, Cursor.rest_eq_current_cons_advance hc]
        rfl
      refine ⟨?_, List.length_pos_iff.1 hpos⟩
      simp only [List.length_append, List.length_singleton] at hpos ⊢
      omega

-- ===================================================== nested statements

/-- Where declarations end: at a token that ends them, with nothing that
refuses them. -/
def Reaches (ends : TokenKind → Bool) (c : Cursor)
    (result : EStateM.Result Stop Cursor α) : Prop :=
  ∃ a c', result = .ok a c' ∧ c.Pays 0 c' ∧ ends c'.current.kind = true

/-- With this budget, every reader of statements that can afford its
tokens settles. -/
structure StmtsSettle (budget : Nat) : Prop where
  declarations : ∀ (ends : TokenKind → Bool) (c : Cursor),
    ends .endOfText = true → 32 * c.rest.length + 19 ≤ budget →
    Reaches ends c (declarations ends budget c)
  declaration : ∀ c : Cursor, c.current.kind ≠ .endOfText →
    32 * c.rest.length + 18 ≤ budget → Recovers c (declaration budget c)
  funDecl : ∀ c : Cursor, c.current.kind ≠ .endOfText →
    32 * c.rest.length + 1 ≤ budget → Settled 1 c (funDecl budget c)
  statement : ∀ c : Cursor, 32 * c.rest.length + 17 ≤ budget →
    Settled 1 c (statement budget c)
  condStmt : ∀ c : Cursor, c.current.kind ≠ .endOfText →
    32 * c.rest.length + 1 ≤ budget → Settled 1 c (condStmt budget c)
  loopStmt : ∀ c : Cursor, c.current.kind ≠ .endOfText →
    32 * c.rest.length + 1 ≤ budget → Settled 1 c (loopStmt budget c)
  forStmt : ∀ c : Cursor, c.current.kind ≠ .endOfText →
    32 * c.rest.length + 1 ≤ budget → Settled 1 c (forStmt budget c)
  braced : ∀ c : Cursor, c.current.kind ≠ .endOfText →
    32 * c.rest.length + 1 ≤ budget → Settled 1 c (braced budget c)

section Nested

variable {budget : Nat} (ih : StmtsSettle budget)

include ih

/-- Behind a first token there is room for a statement. -/
theorem settled_branch (h₁ : c.Pays 1 c₁)
    (hc : 32 * c.rest.length + 1 ≤ budget + 1) :
    Settled 1 c₁ (statement budget c₁) :=
  ih.statement c₁ (by have := h₁.length; omega)

/-- Declarations are read up to a token that ends them. Each of them takes a
token, even one that is refused, so there is budget left for the next. -/
theorem reaches_declarations {ends : TokenKind → Bool}
    (hends : ends .endOfText = true)
    (hc : 32 * c.rest.length + 19 ≤ budget + 1) :
    Reaches ends c (declarations ends (budget + 1) c) := by
  rw [declarations, kind_bind]
  split
  case isTrue hkind => exact ⟨[], c, rfl, .refl c, hkind⟩
  case isFalse hkind =>
  have hinside : c.current.kind ≠ .endOfText := by
    rintro h
    rw [h] at hkind
    exact hkind hends
  obtain ⟨first, c₁, hfirst, h₁⟩ := ih.declaration c hinside (by omega)
  obtain ⟨others, c₂, hothers, h₂, hend⟩ := ih.declarations ends c₁ hends
    (by have := h₁.length_lt; omega)
  refine ⟨first.toList ++ others, c₂, ?_, h₁.pays.trans h₂, hend⟩
  rw [bind_of_ok hfirst, bind_of_ok hothers]
  rfl

/-- A declaration takes a token even where it is refused, since the recovery
then takes one, and that pays for the error. -/
theorem recovers_declaration (hinside : c.current.kind ≠ .endOfText)
    (hc : 32 * c.rest.length + 18 ≤ budget + 1) :
    Recovers c (declaration (budget + 1) c) := by
  rw [declaration]
  refine Settled.recovering ?_ hinside
  rw [kind_bind]
  cases hkind : c.current.kind with
  | kwFun => exact ih.funDecl c hinside (by omega)
  | kwVar => exact settled_varDecl (by omega) hinside
  | _ => exact ih.statement c (by omega)

/-- A function has taken its word before its parameters and its body are read,
and these are below. -/
theorem settled_funDecl (hword : c.current.kind ≠ .endOfText)
    (hc : 32 * c.rest.length + 1 ≤ budget + 1) :
    Settled 1 c (funDecl (budget + 1) c) := by
  have hrest (word name : Token) (params : List Name) (c₁ : Cursor)
      (h₁ : c.Pays 1 c₁) :
      Settled 1 c (functionRest budget word name params c₁) := by
    refine .expect h₁ (by decide) fun _ c₂ h₂ => ?_
    rw [current_bind, run_ite]
    split
    case isFalse => exact .refuse h₂
    case isTrue hkind =>
    have hbody := ih.braced c₂ (by rw [hkind]; decide)
      (by have := h₂.length; omega)
    exact .later h₂ hbody fun body c₃ h₃ => (h₃.number _).number _
  rw [funDecl_succ]
  refine .take hword fun h₁ => .expect h₁ (by decide) fun name c₂ h₂ =>
    .expect h₂ (by decide) fun _ c₃ h₃ => ?_
  rw [kind_bind, run_ite]
  split
  · exact hrest _ name [] c₃ h₃
  · exact .later h₃ (settled_parameters (by have := h₃.length; omega))
      fun params => hrest _ name params

/-- A statement has taken its first word, or is an expression. -/
theorem settled_statement (hc : 32 * c.rest.length + 17 ≤ budget + 1) :
    Settled 1 c (statement (budget + 1) c) := by
  rw [Reader.statement, kind_bind]
  cases hkind : c.current.kind with
  | kwFor => exact ih.forStmt c (by rw [hkind]; decide) (by omega)
  | kwIf => exact ih.condStmt c (by rw [hkind]; decide) (by omega)
  | kwPrint => exact settled_printStmt (by omega) (by rw [hkind]; decide)
  | kwReturn => exact settled_retStmt (by omega) (by rw [hkind]; decide)
  | kwWhile => exact ih.loopStmt c (by rw [hkind]; decide) (by omega)
  | leftBrace =>
    exact .first (ih.braced c (by rw [hkind]; decide) (by omega))
      fun body c₁ h₁ => h₁
  | _ => exact settled_exprStmt (by omega)

/-- The word of an `if` pays for its test and its branches. -/
theorem settled_condStmt (hword : c.current.kind ≠ .endOfText)
    (hc : 32 * c.rest.length + 1 ≤ budget + 1) :
    Settled 1 c (condStmt (budget + 1) c) := by
  rw [condStmt]
  refine .take hword fun h₁ => .expect h₁ (by decide) fun _ c₂ h₂ =>
    .later h₂ (settled_inner h₂ (by omega)) fun test c₃ h₃ =>
    .expect h₃ (by decide) fun _ c₄ h₄ =>
    .later h₄ (settled_branch ih h₄ hc) fun yes c₅ h₅ =>
    .takeIf h₅ (by decide) fun more c₆ h₆ => ?_
  rw [run_ite]
  split
  · exact .later h₆ (settled_branch ih h₆ hc).map fun no c₇ h₇ => h₇.number _
  · exact h₆.number _

/-- The word of a `while` pays for its test and its body. -/
theorem settled_loopStmt (hword : c.current.kind ≠ .endOfText)
    (hc : 32 * c.rest.length + 1 ≤ budget + 1) :
    Settled 1 c (loopStmt (budget + 1) c) := by
  rw [loopStmt]
  exact .take hword fun h₁ => .expect h₁ (by decide) fun _ c₂ h₂ =>
    .later h₂ (settled_inner h₂ (by omega)) fun test c₃ h₃ =>
    .expect h₃ (by decide) fun _ c₄ h₄ =>
    .later h₄ (settled_branch ih h₄ hc) fun body c₅ h₅ => h₅.number _

/-- The word of a `for` pays for its clauses and its body. -/
theorem settled_forStmt (hword : c.current.kind ≠ .endOfText)
    (hc : 32 * c.rest.length + 1 ≤ budget + 1) :
    Settled 1 c (forStmt (budget + 1) c) := by
  rw [forStmt]
  have hroom {c₁ : Cursor} (h₁ : c.Pays 1 c₁) :
      32 * c₁.rest.length + 16 ≤ budget := by
    have := h₁.length
    omega
  exact .take hword fun h₁ => .expect h₁ (by decide) fun _ c₂ h₂ =>
    .later h₂ (settled_forInit (hroom h₂)) fun init c₃ h₃ =>
    .later h₃ (settled_forTest (hroom h₃)) fun test c₄ h₄ =>
    .expect h₄ (by decide) fun _ c₅ h₅ =>
    .later h₅ (settled_forStep (hroom h₅)) fun step c₆ h₆ =>
    .expect h₆ (by decide) fun _ c₇ h₇ =>
    .later h₇ (settled_branch ih h₇ hc) fun body c₈ h₈ =>
    .later h₈ settled_forBody fun inner c₉ h₉ => .last h₉ settled_forLoop

/-- The opening brace pays for the declarations, which pay for their own
errors. -/
theorem settled_braced (hopening : c.current.kind ≠ .endOfText)
    (hc : 32 * c.rest.length + 1 ≤ budget + 1) :
    Settled 1 c (braced (budget + 1) c) := by
  rw [braced]
  refine .take hopening fun h₁ => ?_
  obtain ⟨body, c₂, hbody, h₂, -⟩ := ih.declarations endsBlock c.advance
    rfl (by have := h₁.length; omega)
  rw [bind_of_ok hbody]
  refine .takeIf (h₁.trans h₂) (by decide) fun closed c₃ h₃ => ?_
  rw [run_ite]
  split
  · exact h₃.number _
  · exact .refuse h₃

end Nested

/-- All readers of statements settle, by induction on the budget. Whatever a
declaration was refused for, the next one starts further on. -/
theorem stmtsSettle (budget : Nat) : StmtsSettle budget := by
  induction budget with
  | zero => constructor <;> intros <;> omega
  | succ budget ih =>
    exact {
      declarations := fun _ _ => reaches_declarations ih
      declaration := fun _ => recovers_declaration ih
      funDecl := fun _ => settled_funDecl ih
      statement := fun _ => settled_statement ih
      condStmt := fun _ => settled_condStmt ih
      loopStmt := fun _ => settled_loopStmt ih
      forStmt := fun _ => settled_forStmt ih
      braced := fun _ => settled_braced ih }

end Reader

end Lox
