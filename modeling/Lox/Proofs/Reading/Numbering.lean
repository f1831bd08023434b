/-
The identities of what is read. The nodes of a phrase get the numbers
between the one that was next before it and the one that is next behind
it, each number once, so no two nodes of all the units of a session have
the same identity.
-/
import Lox.Proofs.Reading.Grammar
import Lox.Proofs.Tree.Nodes

namespace Lox

/-- Different numbers from the first on and below the second. -/
structure Numbered (n : Nat) (ids : List Nat) (n' : Nat) : Prop where
  le : n ≤ n'
  nodup : ids.Nodup
  bounds : ∀ id ∈ ids, n ≤ id ∧ id < n'

namespace Numbered

variable {n n₁ n' : Nat} {as bs : List Nat}

theorem nil (h : n ≤ n') : Numbered n [] n' := ⟨h, .nil, nofun⟩

/-- The next number goes to one more node. -/
theorem cons (h : Numbered n as n') : Numbered n (n' :: as) (n' + 1) := by
  refine ⟨Nat.le_succ_of_le h.le, List.nodup_cons.2 ⟨?_, h.nodup⟩, ?_⟩
  · intro hmem
    exact Nat.lt_irrefl _ (h.bounds _ hmem).2
  · intro id hid
    rcases List.mem_cons.1 hid with rfl | hid
    · exact ⟨h.le, Nat.lt_succ_self _⟩
    · have := h.bounds id hid
      omega

theorem append (ha : Numbered n as n₁) (hb : Numbered n₁ bs n') :
    Numbered n (as ++ bs) n' := by
  refine ⟨Nat.le_trans ha.le hb.le,
    List.nodup_append.2 ⟨ha.nodup, hb.nodup, ?_⟩, ?_⟩
  · intro a hmem b hmem' heq
    have := ha.bounds a hmem
    have := hb.bounds b hmem'
    omega
  · intro id hid
    have hn := ha.le
    have hn' := hb.le
    rcases List.mem_append.1 hid with hid | hid
    · have := ha.bounds id hid
      omega
    · have := hb.bounds id hid
      omega

theorem perm (h : Numbered n as n') (hp : as.Perm bs) :
    Numbered n bs n' :=
  ⟨h.le, hp.nodup_iff.1 h.nodup, fun id hid => h.bounds id (hp.mem_iff.2 hid)⟩

end Numbered

/-- The identities in the trees of a phrase. -/
def Phrase.ids : Phrase → List Nat
  | expr _ e | test e => e.ids
  | args es => Expr.idsAll es
  | params _ | clause none => []
  | maybe e => Expr.idsOf e
  | varDecl s | exprStmt s | clause (some s) | stmt _ s | decl s => s.ids
  | braced node body => node.id :: Stmt.idsAll body
  | decls ss => Stmt.idsAll ss

/-- The third clause of a `for` is read before the body that it stands
behind. -/
theorem numbered_forBodyTree (pos : Position) {n₂ n₃ n₄ : Nat}
    {step : Option Expr} {body : Stmt}
    (hstep : Numbered n₂ (Expr.idsOf step) n₃)
    (hbody : Numbered n₃ body.ids n₄) :
    Numbered n₂ (forBodyTree pos step body n₄).1.ids
      (forBodyTree pos step body n₄).2 := by
  cases step with
  | none => exact hstep.append hbody
  | some e =>
    refine ((hstep.append hbody).cons.cons).perm (.cons _ ?_)
    simp only [Stmt.idsAll, Stmt.ids, List.append_nil]
    exact (List.perm_append_comm.cons _).trans List.perm_middle.symm

/-- What a `for` stands for is numbered behind its parts. -/
theorem numbered_forTree {n n₁ n₂ n₃ n₄ : Nat} {pos : Position}
    {first : Option Stmt} {test : Expr} {step : Option Expr} {body : Stmt}
    (hfirst : Numbered n (Phrase.ids (.clause first)) n₁)
    (htest : Numbered n₁ test.ids n₂)
    (hstep : Numbered n₂ (Expr.idsOf step) n₃)
    (hbody : Numbered n₃ body.ids n₄) :
    Numbered n (forTree pos first test step body n₄).1.ids
      (forTree pos first test step body n₄).2 := by
  have hloop := (htest.append (numbered_forBodyTree pos hstep hbody)).cons
  cases first with
  | none => exact hfirst.append hloop
  | some s =>
    have := (hfirst.append hloop).cons
    simpa [forTree, forLoopTree, Stmt.ids, Stmt.idsAll, Phrase.ids] using this

/-- The nodes of what tokens spell have the numbers in between. -/
theorem Spells.numbered {n n' : Nat} {ts : List Token} {p : Phrase}
    (h : Spells n ts p n') : Numbered n p.ids n' := by
  induction h with
  | literal | var | noTest => exact (Numbered.nil (Nat.le_refl _)).cons
  | group _ _ _ ih | unary _ _ ih | exprStmt _ _ ih | braced _ _ _ ih
  | print _ _ _ ih | ret _ _ _ ih | varInit _ _ _ _ _ ih => exact ih.cons
  | varDecl => exact (Numbered.nil (Nat.le_refl _)).cons
  | call _ _ _ _ ih₁ ih₂ => exact (ih₁.append ih₂).cons.cons
  | @join _ _ _ _ _ _ _ _ op _ _ _ _ _ _ ih₁ ih₂ =>
      have := (ih₁.append ih₂).cons
      cases op <;> exact this
  | lift _ _ ih | present _ ih | varClause _ ih | exprClause _ ih
  | someTest _ _ ih | expression _ ih | block _ ih | «variable» _ ih
  | statement _ ih => exact ih
  | assign _ _ _ ih₁ ih₂ => exact ((Numbered.nil ih₁.le).append ih₂).cons
  | noArgs | noParams | oneParam | absent | noClause | nil =>
      exact .nil (Nat.le_refl _)
  | moreParams _ _ _ ih => exact ih
  | oneArg _ ih => simpa [Phrase.ids, Expr.idsAll] using ih
  | moreArgs _ _ _ ih₁ ih₂ => exact ih₁.append ih₂
  | cond _ _ _ _ _ ih₁ ih₂ | loop _ _ _ _ _ ih₁ ih₂ =>
      exact (ih₁.append ih₂).cons
  | condElse _ _ _ _ _ _ _ ih₁ ih₂ ih₃ =>
      exact ((ih₁.append ih₂).append ih₃).cons
  | forLoop _ _ _ _ _ _ _ ih₁ ih₂ ih₃ ih₄ =>
      exact numbered_forTree ih₁ ih₂ ih₃ ih₄
  | function _ _ _ _ _ _ ih₁ ih₂ => exact (ih₁.append ih₂).cons.cons
  | cons _ _ ih₁ ih₂ => exact ih₁.append ih₂

end Lox
