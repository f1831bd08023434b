/-
Parts have smaller numbers. A node is numbered when it is complete, so
its number is greater than the numbers of all nodes below it, those of
the lists of arguments and of parameters and of the bodies of functions
included (`Descending`). The readers that number out of order make no
exception: the list of parameters is numbered behind the body, and the
third clause of a `for` before the body that it runs behind, but the
node above both comes last (`readProgram_descending`).
-/
import Lox.Proofs.Reading.Scan

namespace Lox

-- ============================================================ statements

/-- The number is greater than all of these. -/
def Above (n : Nat) (ids : List Nat) : Prop := ∀ id ∈ ids, id < n

mutual

/-- Every node of the expression has a greater number than all nodes
below it. -/
def Expr.Descending : Expr → Prop
  | .literal _ _ | .var _ _ => True
  | .assign node _ e | .group node e | .unary node _ e =>
      Above node.id e.ids ∧ e.Descending
  | .binary node _ left right | .logical node _ left right =>
      Above node.id (left.ids ++ right.ids) ∧ left.Descending ∧
        right.Descending
  | .call node argsId callee args =>
      Above node.id (argsId :: (callee.ids ++ idsAll args)) ∧
        Above argsId (idsAll args) ∧ callee.Descending ∧ AllDescending args

/-- The same for each of these expressions. -/
def Expr.AllDescending : List Expr → Prop
  | [] => True
  | e :: es => e.Descending ∧ AllDescending es

end

mutual

/-- Every node of the statement has a greater number than all nodes below
it. -/
def Stmt.Descending : Stmt → Prop
  | .expr node e | .print node e => Above node.id e.ids ∧ e.Descending
  | .varDecl node _ value | .ret node value =>
      Above node.id (Expr.idsOf value) ∧ ∀ e ∈ value, e.Descending
  | .funDecl node _ paramsId _ bodyNode body =>
      Above node.id (paramsId :: bodyNode.id :: idsAll body) ∧
        Above bodyNode.id (idsAll body) ∧ AllDescending body
  | .block node body => Above node.id (idsAll body) ∧ AllDescending body
  | .cond node test yes none =>
      Above node.id (test.ids ++ yes.ids) ∧ test.Descending ∧ yes.Descending
  | .cond node test yes (some no) =>
      Above node.id (test.ids ++ yes.ids ++ no.ids) ∧ test.Descending ∧
        yes.Descending ∧ no.Descending
  | .loop node test body =>
      Above node.id (test.ids ++ body.ids) ∧ test.Descending ∧
        body.Descending

/-- The same for each of these statements. -/
def Stmt.AllDescending : List Stmt → Prop
  | [] => True
  | s :: ss => s.Descending ∧ AllDescending ss

end

/-- The trees of a phrase have that property. -/
def Phrase.Descending : Phrase → Prop
  | expr _ e | test e => e.Descending
  | args es => Expr.AllDescending es
  | params _ | clause none => True
  | maybe e => ∀ e' ∈ e, e'.Descending
  | varDecl s | exprStmt s | clause (some s) | stmt _ s | decl s =>
      s.Descending
  | braced node body => Above node.id (Stmt.idsAll body) ∧
      Stmt.AllDescending body
  | decls ss => Stmt.AllDescending ss

-- ================================================================ phrases

theorem Numbered.above {n n' : Nat} {ids : List Nat}
    (h : Numbered n ids n') : Above n' ids :=
  fun id hid => (h.bounds id hid).2

theorem Above.mono {n n' : Nat} {ids : List Nat} (h : Above n ids)
    (hle : n ≤ n') : Above n' ids :=
  fun id hid => Nat.lt_of_lt_of_le (h id hid) hle

theorem Above.cons {n id : Nat} {ids : List Nat} (hid : id < n)
    (h : Above n ids) : Above n (id :: ids) :=
  List.forall_mem_cons.2 ⟨hid, h⟩

/-- The body of a `for` stands above its third clause too. -/
theorem descending_forBodyTree {n₃ n₄ : Nat} {pos : Position}
    {step : Option Expr} {body : Stmt}
    (hstep : Above n₃ (Expr.idsOf step)) (hbody : Numbered n₃ body.ids n₄)
    (hstep' : (Phrase.maybe step).Descending) (hbody' : body.Descending) :
    (forBodyTree pos step body n₄).1.Descending := by
  cases step with
  | none => exact hbody'
  | some e =>
    have he : Above n₄ e.ids := hstep.mono hbody.le
    have hround : Above (n₄ + 1)
        (Stmt.idsAll [body, .expr ⟨n₄, pos⟩ e]) := by
      intro id hid
      simp only [Stmt.idsAll, Stmt.ids, List.append_nil, List.mem_append,
        List.mem_cons] at hid
      rcases hid with hid | rfl | hid
      · exact Nat.lt_succ_of_lt (hbody.above id hid)
      · exact Nat.lt_succ_self _
      · exact Nat.lt_succ_of_lt (he id hid)
    exact ⟨hround, hbody', ⟨he, hstep' e rfl⟩, trivial⟩

/-- The trees that a `for` stands for. -/
theorem descending_forTree {n n₁ n₂ n₃ n₄ : Nat} {pos : Position}
    {first : Option Stmt} {test : Expr} {step : Option Expr} {body : Stmt}
    (hfirst : Numbered n (Phrase.ids (.clause first)) n₁)
    (htest : Numbered n₁ test.ids n₂)
    (hstep : Numbered n₂ (Expr.idsOf step) n₃)
    (hbody : Numbered n₃ body.ids n₄)
    (hfirst' : (Phrase.clause first).Descending) (htest' : test.Descending)
    (hstep' : (Phrase.maybe step).Descending) (hbody' : body.Descending) :
    (forTree pos first test step body n₄).1.Descending := by
  have hround : (forBodyTree pos step body n₄).1.Descending :=
    descending_forBodyTree hstep.above hbody hstep' hbody'
  have hloop := htest.append (numbered_forBodyTree pos hstep hbody)
  unfold forTree
  generalize forBodyTree pos step body n₄ = made at hround hloop
  obtain ⟨round, m⟩ := made
  cases first with
  | none => exact ⟨hloop.above, htest', hround⟩
  | some s =>
    have hall : Above (m + 1) (s.ids ++ (m :: (test.ids ++ round.ids))) :=
      (hfirst.append hloop.cons).above
    rw [← List.append_nil (m :: _)] at hall
    exact ⟨hall, hfirst', ⟨hloop.above, htest', hround⟩, trivial⟩

/-- What tokens spell has smaller numbers further down. -/
theorem Spells.descending {n n' : Nat} {ts : List Token} {p : Phrase}
    (h : Spells n ts p n') : p.Descending := by
  induction h with
  | literal | var | noTest | noArgs | noParams | oneParam | moreParams
  | noClause | nil => trivial
  | absent =>
    intro _ he
    cases he
  | varDecl =>
    constructor <;> intro _ he <;> cases he
  | lift _ _ ih | varClause _ ih | exprClause _ ih
  | someTest _ _ ih | expression _ ih | block _ ih | «variable» _ ih
  | statement _ ih => exact ih
  | present _ ih =>
    intro _ he
    cases he
    exact ih
  | group _ h _ ih | unary _ h ih | exprStmt h _ ih | print _ h _ ih
  | braced _ h _ ih => exact ⟨h.numbered.above, ih⟩
  | ret _ h _ ih => exact ⟨h.numbered.above, ih⟩
  | varInit _ _ _ h _ ih =>
    refine ⟨h.numbered.above, ?_⟩
    intro _ he
    cases he
    exact ih
  | assign _ _ h _ ih => exact ⟨h.numbered.above, ih⟩
  | call h _ h' _ ih ih' =>
    have hboth := (h.numbered.append h'.numbered).above
    exact ⟨.cons (Nat.lt_succ_self _) (hboth.mono (Nat.le_succ _)),
      h'.numbered.above, ih, ih'⟩
  | @join _ _ _ _ _ _ _ _ op _ _ h _ _ h' ih ih' =>
    have hboth := (h.numbered.append h'.numbered).above
    cases op <;> exact ⟨hboth, ih, ih'⟩
  | oneArg _ ih => exact ⟨ih, trivial⟩
  | moreArgs _ _ _ ih ih' => exact ⟨ih, ih'⟩
  | cond _ _ h _ h' ih ih' =>
    exact ⟨(h.numbered.append h'.numbered).above, ih, ih'⟩
  | loop _ _ h _ h' ih ih' =>
    exact ⟨(h.numbered.append h'.numbered).above, ih, ih'⟩
  | condElse _ _ h _ h' _ h'' ih ih' ih'' =>
    exact ⟨((h.numbered.append h'.numbered).append h''.numbered).above, ih,
      ih', ih''⟩
  | forLoop _ _ h₁ h₂ h₃ _ h₄ ih₁ ih₂ ih₃ ih₄ =>
    exact descending_forTree h₁.numbered h₂.numbered h₃.numbered h₄.numbered
      ih₁ ih₂ ih₃ ih₄
  | function _ _ _ _ _ h _ ih =>
    exact ⟨.cons (Nat.lt_succ_self _) (h.numbered.above.mono (Nat.le_succ _)),
      ih⟩
  | cons _ _ ih ih' => exact ⟨ih, ih'⟩

/-- The nodes of a program have greater numbers than all nodes below
them. -/
theorem readProgram_descending {source : String} {n n' : Nat}
    {program : List Stmt} (h : readProgram source n = (.ok program, n')) :
    Stmt.AllDescending program := by
  obtain ⟨ts, eof, -, -, hs⟩ := readProgram_eq_ok_iff.1 h
  exact hs.descending

end Lox
