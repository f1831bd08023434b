/-
The parts of a tree, one level at a time and all at once. What runs next
is a part of what runs now, so what a run does to a part is said of the
parts right inside (`Expr.parts`, `Stmt.exprs`, `Stmt.branches`); what
the text of a program says of its nodes is said throughout the tree,
the bodies of its functions included.
-/
import Lox.Tree

namespace Lox

-- =========================================================== right inside

/-- The expressions right inside an expression. -/
def Expr.parts : Expr → List Expr
  | .literal _ _ | .var _ _ => []
  | .assign _ _ e | .group _ e | .unary _ _ e => [e]
  | .binary _ _ a b | .logical _ _ a b => [a, b]
  | .call _ _ callee args => callee :: args

/-- The expressions right inside a statement. -/
def Stmt.exprs : Stmt → List Expr
  | .expr _ e | .print _ e | .cond _ e _ _ | .loop _ e _ => [e]
  | .varDecl _ _ init => init.toList
  | .ret _ value => value.toList
  | .funDecl _ _ _ _ _ _ | .block _ _ => []

/-- The statements right inside a statement that run where it does. -/
def Stmt.branches : Stmt → List Stmt
  | .cond _ _ yes no => yes :: no.toList
  | .loop _ _ body => [body]
  | _ => []

-- ============================================================= throughout

section Throughout

variable (P : Expr → Prop)

mutual

/-- The property holds of the expression and of all inside it. -/
def Expr.Throughout : Expr → Prop
  | .literal node value => P (.literal node value)
  | .var node name => P (.var node name)
  | .assign node name value => P (.assign node name value) ∧ value.Throughout
  | .group node inner => P (.group node inner) ∧ inner.Throughout
  | .unary node op operand => P (.unary node op operand) ∧ operand.Throughout
  | .binary node op left right =>
      P (.binary node op left right) ∧ left.Throughout ∧ right.Throughout
  | .logical node op left right =>
      P (.logical node op left right) ∧ left.Throughout ∧ right.Throughout
  | .call node argsId callee args =>
      P (.call node argsId callee args) ∧ callee.Throughout ∧
        AllThroughout args

/-- The same for each of these expressions. -/
def Expr.AllThroughout : List Expr → Prop
  | [] => True
  | e :: es => e.Throughout ∧ AllThroughout es

end

mutual

/-- The property holds of all expressions in the statement. -/
def Stmt.Throughout : Stmt → Prop
  | .expr _ value | .print _ value => value.Throughout P
  | .varDecl _ _ init => ∀ e ∈ init, e.Throughout P
  | .funDecl _ _ _ _ _ body | .block _ body => AllThroughout body
  | .cond _ test yes none => test.Throughout P ∧ yes.Throughout
  | .cond _ test yes (some no) =>
      test.Throughout P ∧ yes.Throughout ∧ no.Throughout
  | .loop _ test body => test.Throughout P ∧ body.Throughout
  | .ret _ value => ∀ e ∈ value, e.Throughout P

/-- The same for each of these statements. -/
def Stmt.AllThroughout : List Stmt → Prop
  | [] => True
  | s :: ss => s.Throughout ∧ AllThroughout ss

end

end Throughout

variable {P : Expr → Prop}

/-- Throughout a list of arguments means throughout each of them. -/
theorem Expr.allThroughout_iff {es : List Expr} :
    Expr.AllThroughout P es ↔ ∀ e ∈ es, e.Throughout P := by
  induction es with
  | nil => simp [AllThroughout]
  | cons e es ih => rw [AllThroughout, List.forall_mem_cons, ih]

theorem Expr.Throughout.self {e : Expr} (h : e.Throughout P) : P e := by
  cases e with
  | literal | var => exact h
  | _ => exact h.1

/-- What holds throughout an expression holds throughout each part of it,
which is what an induction along a run needs at a smaller expression. -/
theorem Expr.Throughout.part {e : Expr} (h : e.Throughout P) :
    ∀ e' ∈ e.parts, e'.Throughout P := by
  cases e with
  | literal | var => nofun
  | assign | group | unary =>
    exact List.forall_mem_singleton.2 h.2
  | binary | logical =>
    exact List.forall_mem_cons.2
      ⟨h.2.1, List.forall_mem_singleton.2 h.2.2⟩
  | call =>
    exact List.forall_mem_cons.2 ⟨h.2.1, Expr.allThroughout_iff.1 h.2.2⟩

/-- It also holds throughout the expressions a statement evaluates by
itself. -/
theorem Stmt.Throughout.expr {s : Stmt} (h : s.Throughout P) :
    ∀ e ∈ s.exprs, e.Throughout P := by
  cases s with
  | expr | print => exact List.forall_mem_singleton.2 h
  | varDecl | ret => exact fun e he => h e (Option.mem_toList.1 he)
  | funDecl | block => nofun
  | cond node test yes no =>
    cases no <;> exact List.forall_mem_singleton.2 h.1
  | loop => exact List.forall_mem_singleton.2 h.1

/-- What holds throughout a statement holds throughout each statement it goes
on to, the body of a function it declares among them. -/
theorem Stmt.Throughout.branch {s : Stmt} (h : s.Throughout P) :
    ∀ s' ∈ s.branches, s'.Throughout P := by
  cases s with
  | cond node test yes no =>
    cases no with
    | none => exact List.forall_mem_singleton.2 h.2
    | some other =>
      exact List.forall_mem_cons.2
        ⟨h.2.1, List.forall_mem_singleton.2 h.2.2⟩
  | loop => exact List.forall_mem_singleton.2 h.2
  | _ => nofun

-- --------------------------------------------------- a weaker property

variable {Q : Expr → Prop}

mutual

/-- A weaker property holds throughout as well. -/
theorem Expr.Throughout.imp (hpq : ∀ e, P e → Q e) :
    (e : Expr) → e.Throughout P → e.Throughout Q
  | .literal _ _, h | .var _ _, h => hpq _ h
  | .assign _ _ e, h | .group _ e, h | .unary _ _ e, h =>
      ⟨hpq _ h.1, Expr.Throughout.imp hpq e h.2⟩
  | .binary _ _ a b, h | .logical _ _ a b, h =>
      ⟨hpq _ h.1, Expr.Throughout.imp hpq a h.2.1,
        Expr.Throughout.imp hpq b h.2.2⟩
  | .call _ _ callee args, h =>
      ⟨hpq _ h.1, Expr.Throughout.imp hpq callee h.2.1,
        Expr.allThroughout_imp hpq args h.2.2⟩

/-- The same for some expressions. -/
theorem Expr.allThroughout_imp (hpq : ∀ e, P e → Q e) :
    (es : List Expr) → Expr.AllThroughout P es → Expr.AllThroughout Q es
  | [], _ => trivial
  | e :: es, h =>
      ⟨Expr.Throughout.imp hpq e h.1, Expr.allThroughout_imp hpq es h.2⟩

end

mutual

theorem Stmt.Throughout.imp (hpq : ∀ e, P e → Q e) :
    (s : Stmt) → s.Throughout P → s.Throughout Q
  | .expr _ e, h | .print _ e, h => Expr.Throughout.imp hpq e h
  | .varDecl _ _ _, h | .ret _ _, h => fun e he =>
      Expr.Throughout.imp hpq e (h e he)
  | .funDecl _ _ _ _ _ body, h | .block _ body, h =>
      Stmt.allThroughout_imp hpq body h
  | .cond _ test yes none, h =>
      ⟨Expr.Throughout.imp hpq test h.1, Stmt.Throughout.imp hpq yes h.2⟩
  | .cond _ test yes (some no), h =>
      ⟨Expr.Throughout.imp hpq test h.1, Stmt.Throughout.imp hpq yes h.2.1,
        Stmt.Throughout.imp hpq no h.2.2⟩
  | .loop _ test body, h =>
      ⟨Expr.Throughout.imp hpq test h.1, Stmt.Throughout.imp hpq body h.2⟩

/-- The same for some statements. -/
theorem Stmt.allThroughout_imp (hpq : ∀ e, P e → Q e) :
    (ss : List Stmt) → Stmt.AllThroughout P ss → Stmt.AllThroughout Q ss
  | [], _ => trivial
  | s :: ss, h =>
      ⟨Stmt.Throughout.imp hpq s h.1, Stmt.allThroughout_imp hpq ss h.2⟩

end

end Lox
