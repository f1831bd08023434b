/-
What a survey notes, said of the tree alone. Every use of a name stands
among scopes that the tree determines (`Stmt.nameUses`), and a survey
that ends without an error has noted just the uses whose names one of
these scopes declares, in the order in which they run; a survey that
stops has noted the first of them (`Stmt.follows_survey`). So no use is
noted twice, with an error or without.
-/
import Lox.Proofs.Scoping.Table
import Mathlib.Data.List.Perm.Subperm

namespace Lox

-- ================================================================ the uses

/-- A use of a name, and the scopes around it. -/
structure NameUse where
  node : Node
  name : String
  kind : UseKind
  scopes : Scopes

/-- What a survey notes of a use: how far out it is bound, if a local
scope binds it. -/
def NameUse.local? (u : NameUse) : Option LocalUse :=
  (u.scopes.depth? u.name).map (⟨u.node, u.name, u.kind, ·⟩)

mutual

/-- The uses in an expression among these scopes, in the order in which
they run: the target of an assignment behind its value. -/
def Expr.nameUses (scopes : Scopes) : Expr → List NameUse
  | .literal _ _ => []
  | .var node name => [⟨node, name, .read, scopes⟩]
  | .assign node name value =>
      value.nameUses scopes ++ [⟨node, name, .write, scopes⟩]
  | .group _ inner => inner.nameUses scopes
  | .unary _ _ operand => operand.nameUses scopes
  | .binary _ _ left right | .logical _ _ left right =>
      left.nameUses scopes ++ right.nameUses scopes
  | .call _ _ callee args => callee.nameUses scopes ++ allNameUses scopes args

/-- The uses in some expressions. -/
def Expr.allNameUses (scopes : Scopes) : List Expr → List NameUse
  | [] => []
  | e :: es => e.nameUses scopes ++ allNameUses scopes es

end

/-- The uses in an expression that may be missing. -/
def Expr.nameUsesOf (scopes : Scopes) : Option Expr → List NameUse
  | none => []
  | some e => e.nameUses scopes

mutual

/-- The uses in a statement among these scopes. An initializer is in the
scope of what it initializes, and the body of a function in a scope with
its parameters. -/
def Stmt.nameUses (scopes : Scopes) : Stmt → List NameUse
  | .expr _ e | .print _ e => e.nameUses scopes
  | .varDecl _ name init => Expr.nameUsesOf (scopes.add name.text) init
  | .funDecl _ name _ params _ body =>
      allNameUses ((params.map Name.text).reverse :: scopes.add name.text)
        body
  | .block _ body => allNameUses ([] :: scopes) body
  | .cond _ test yes none => test.nameUses scopes ++ yes.nameUses scopes
  | .cond _ test yes (some no) =>
      test.nameUses scopes ++ (yes.nameUses scopes ++ no.nameUses scopes)
  | .loop _ test body => test.nameUses scopes ++ body.nameUses scopes
  | .ret _ value => Expr.nameUsesOf scopes value

/-- The uses in some statements, each among the scopes behind those
before. -/
def Stmt.allNameUses (scopes : Scopes) : List Stmt → List NameUse
  | [] => []
  | s :: ss => s.nameUses scopes ++ allNameUses (s.scopesAfter scopes) ss

end

/-- What is noted of these uses. -/
def notesOf (uses : List NameUse) : List LocalUse :=
  uses.filterMap NameUse.local?

/-- Of uses one behind the other the notes are one behind the other. -/
theorem notesOf_append (as bs : List NameUse) :
    notesOf (as ++ bs) = notesOf as ++ notesOf bs :=
  List.filterMap_append

-- ========================================================== surveys

namespace Survey

variable {ν ε α β : Type}

/-- A survey notes these things and ends with this, unless it stops on
the way. -/
def Follows (s : Survey ν ε α) (all : List ν) (a : α) : Prop :=
  s = ⟨all, .ok a⟩ ∨ ∃ e, s.result = .error e ∧ s.notes <+: all

namespace Follows

/-- A survey of nothing notes nothing. -/
theorem done (a : α) : Follows (done a : Survey ν ε α) [] a := .inl rfl

/-- A note is a survey by itself. -/
theorem note (n : ν) : Follows (note n : Survey ν ε Unit) [n] () := .inl rfl

/-- A survey that stops has noted nothing yet of what it should. -/
theorem stop (e : ε) (all : List ν) (a : α) :
    Follows (stop e : Survey ν ε α) all a :=
  .inr ⟨e, rfl, List.nil_prefix⟩

/-- Surveys one behind the other. Where the first stops, the second notes
nothing, and what was noted is still the beginning of all. -/
theorem bind {s : Survey ν ε α} {f : α → Survey ν ε β} {as bs : List ν}
    {a : α} {b : β} (hs : s.Follows as a) (hf : (f a).Follows bs b) :
    (s >>= f).Follows (as ++ bs) b := by
  show (s.andThen f).Follows (as ++ bs) b
  rcases hs with rfl | ⟨e, hresult, hnotes⟩
  · rcases hf with hf | ⟨e, hresult, hnotes⟩
    · left
      simp only [andThen, hf]
    · right
      refine ⟨e, ?_, ?_⟩
      · simp only [andThen, hresult]
      · simpa only [andThen, List.prefix_append_right_inj] using hnotes
  · right
    refine ⟨e, ?_, ?_⟩
    · simp only [andThen, hresult]
    · simp only [andThen, hresult]
      exact hnotes.trans (List.prefix_append as bs)

/-- A survey that ends with something found on the way. -/
theorem ending {s : Survey ν ε α} {as : List ν} {a : α} {b : β}
    (hs : s.Follows as a) :
    (s >>= fun _ => pure b : Survey ν ε β).Follows as b := by
  have h := hs.bind (f := fun _ => pure b) (done b)
  rwa [List.append_nil] at h

/-- Whether it stops or not, what a survey has noted is the beginning of what
it should note. -/
theorem initial {s : Survey ν ε α} {all : List ν} {a : α}
    (h : s.Follows all a) : s.notes <+: all := by
  rcases h with rfl | ⟨e, -, hnotes⟩
  · exact List.prefix_rfl
  · exact hnotes

/-- Without an error, that is all of it. -/
theorem eq_of_ok {s : Survey ν ε α} {all : List ν} {a : α}
    (h : s.Follows all a) (herror : s.error? = none) : s.notes = all := by
  rcases h with rfl | ⟨e, hresult, -⟩
  · rfl
  · rw [error?, hresult] at herror
    cases herror

end Follows

end Survey

open Survey (Follows)

-- ================================================================= scopes

namespace Scopes

variable (scopes : Scopes)

/-- A use is noted if a scope declares its name, and nothing is noted of a
global. -/
theorem follows_use (kind : UseKind) (node : Node) (name : String) :
    (scopes.use kind node name).Follows
      (notesOf [⟨node, name, kind, scopes⟩]) () := by
  unfold use notesOf
  simp only [List.filterMap_cons, List.filterMap_nil, NameUse.local?]
  cases scopes.depth? name with
  | none => exact .done ()
  | some depth => exact .note _

/-- A declaration notes nothing and adds its name to the innermost scope. -/
theorem follows_declare (name : Name) :
    (scopes.declare name).Follows [] (scopes.add name.text) := by
  unfold declare
  split
  · exact .done _
  · split
    · exact .stop _ _ _
    · exact .done _

/-- Parameters are declared one after another, so the last is the latest in
their scope. -/
theorem follows_declareAll (scope : Scope) (names : List Name) :
    (declareAll (scope :: scopes) names).Follows []
      (((names.map Name.text).reverse ++ scope) :: scopes) := by
  induction names generalizing scope with
  | nil => exact .done _
  | cons name names ih =>
    have hrest := ih (name.text :: scope)
    rw [List.append_cons] at hrest
    rw [declareAll, List.map_cons, List.reverse_cons]
    exact (follows_declare (scope :: scopes) name).bind hrest

end Scopes

-- ================================================================== trees

mutual

/-- The survey of an expression notes its uses, in the order in which they
run. -/
theorem Expr.follows_survey {scopes : Scopes} {pending : Option String} :
    (e : Expr) →
      (e.survey scopes pending).Follows (notesOf (e.nameUses scopes)) ()
  | .literal _ _ => .done ()
  | .var node name => by
      rw [Expr.survey]
      split
      · exact .stop _ _ _
      · exact scopes.follows_use .read node name
  | .assign node name value => by
      rw [nameUses, notesOf_append]
      exact value.follows_survey.bind (scopes.follows_use .write node name)
  | .group _ inner => inner.follows_survey
  | .unary _ _ operand => operand.follows_survey
  | .binary _ _ left right | .logical _ _ left right => by
      rw [nameUses, notesOf_append]
      exact left.follows_survey.bind right.follows_survey
  | .call _ _ callee args => by
      rw [nameUses, notesOf_append]
      exact callee.follows_survey.bind (follows_surveyAll args)

/-- The same for some expressions. -/
theorem Expr.follows_surveyAll {scopes : Scopes} {pending : Option String} :
    (es : List Expr) → (Expr.surveyAll scopes pending es).Follows
      (notesOf (Expr.allNameUses scopes es)) ()
  | [] => .done ()
  | e :: es => by
      rw [allNameUses, notesOf_append]
      exact e.follows_survey.bind (follows_surveyAll es)

end

/-- That of an initializer does, if there is one. -/
theorem Expr.follows_surveyInit {scopes : Scopes} {name : String} :
    (init : Option Expr) → (Expr.surveyInit scopes name init).Follows
      (notesOf (Expr.nameUsesOf scopes init)) ()
  | none => .done ()
  | some e => e.follows_survey

mutual

/-- The survey of a statement notes its uses, and goes on with the scopes
behind it. -/
theorem Stmt.follows_survey {inFunction : Bool} {scopes : Scopes} :
    (s : Stmt) → (s.survey inFunction scopes).Follows
      (notesOf (s.nameUses scopes)) (s.scopesAfter scopes)
  | .expr _ e | .print _ e => e.follows_survey.ending
  | .varDecl _ name init =>
      (scopes.follows_declare name).bind
        (Expr.follows_surveyInit init).ending
  | .funDecl _ name _ params _ body => by
      have hparams :=
        Scopes.follows_declareAll (scopes.add name.text) [] params
      rw [List.append_nil] at hparams
      exact (scopes.follows_declare name).bind
        (hparams.bind (follows_surveyAll body).ending)
  | .block _ body => (follows_surveyAll body).ending
  | .cond _ test yes none => by
      rw [nameUses, notesOf_append]
      exact test.follows_survey.bind yes.follows_survey.ending
  | .cond _ test yes (some no) => by
      rw [nameUses, notesOf_append, notesOf_append]
      exact test.follows_survey.bind
        (yes.follows_survey.bind no.follows_survey.ending)
  | .loop _ test body => by
      rw [nameUses, notesOf_append]
      exact test.follows_survey.bind body.follows_survey.ending
  | .ret _ value => by
      cases inFunction with
      | false => exact .stop _ _ _
      | true =>
        cases value with
        | none => exact .done _
        | some e => exact e.follows_survey.ending

/-- The same for some statements. -/
theorem Stmt.follows_surveyAll {inFunction : Bool} {scopes : Scopes} :
    (ss : List Stmt) → (Stmt.surveyAll inFunction scopes ss).Follows
      (notesOf (Stmt.allNameUses scopes ss))
      (ss.foldl Stmt.scopesAfter scopes)
  | [] => .done scopes
  | s :: ss => by
      rw [allNameUses, notesOf_append]
      exact s.follows_survey.bind (follows_surveyAll ss)

end

-- =============================================================== programs

/-- At the top level no scope is kept: globals may be declared again. -/
theorem Stmt.scopesAfter_nil (s : Stmt) : s.scopesAfter [] = [] := by
  cases s <;> rfl

/-- At the top level, what a program notes is what its statements note. -/
theorem localUses_of_ok {program : List Stmt}
    (h : ∀ s ∈ program, s.surveyTop.error? = none) :
    localUses program = notesOf (Stmt.allNameUses [] program) := by
  induction program with
  | nil => rfl
  | cons s ss ih =>
    rw [List.forall_mem_cons] at h
    have hs : s.surveyTop.notes = notesOf (s.nameUses []) :=
      s.follows_survey.eq_of_ok h.1
    have hss := ih h.2
    rw [localUses] at hss ⊢
    rw [List.flatMap_cons, hss, hs, Stmt.allNameUses, s.scopesAfter_nil,
      notesOf_append]

/-- What is found in a program that is accepted are its uses of local names,
all of them and in order. -/
theorem bindProgram_eq_notesOf {program : List Stmt} {uses : List LocalUse}
    (h : bindProgram program = .ok uses) :
    uses = notesOf (Stmt.allNameUses [] program) := by
  obtain ⟨rfl, herrors⟩ := bindProgram_eq_ok_iff.1 h
  exact localUses_of_ok herrors

-- ============================================================= their nodes

open List (Subperm)

/-- The nodes of some uses. -/
def NameUse.ids (uses : List NameUse) : List Nat := uses.map (·.node.id)

/-- The identities of uses one behind the other are one behind the other. -/
theorem NameUse.ids_append (as bs : List NameUse) :
    ids (as ++ bs) = ids as ++ ids bs :=
  List.map_append

mutual

/-- The uses in an expression are at different nodes of it. -/
theorem Expr.subperm_ids {scopes : Scopes} :
    (e : Expr) → (NameUse.ids (e.nameUses scopes)).Subperm e.ids
  | .literal _ _ => List.nil_subperm
  | .var _ _ => .refl _
  | .assign node _ value => by
      rw [nameUses, NameUse.ids_append]
      exact (List.perm_append_singleton _ _).subperm.trans
        ((List.subperm_cons _).2 value.subperm_ids)
  | .group _ inner | .unary _ _ inner => inner.subperm_ids.cons_right _
  | .binary _ _ left right | .logical _ _ left right => by
      rw [nameUses, NameUse.ids_append]
      exact (left.subperm_ids.append right.subperm_ids).cons_right _
  | .call _ _ callee args => by
      rw [nameUses, NameUse.ids_append]
      exact ((callee.subperm_ids.append
        (subperm_idsAll args)).cons_right _).cons_right _

/-- The same for some expressions. -/
theorem Expr.subperm_idsAll {scopes : Scopes} : (es : List Expr) →
    (NameUse.ids (Expr.allNameUses scopes es)).Subperm (Expr.idsAll es)
  | [] => .refl _
  | e :: es => by
      rw [allNameUses, NameUse.ids_append]
      exact e.subperm_ids.append (subperm_idsAll es)

end

/-- The nodes of the uses in an initializer are among its nodes, each as
often. -/
theorem Expr.subperm_idsOf {scopes : Scopes} : (e : Option Expr) →
    (NameUse.ids (Expr.nameUsesOf scopes e)).Subperm (Expr.idsOf e)
  | none => .refl _
  | some e => e.subperm_ids

mutual

/-- The uses in a statement are at different nodes of it. -/
theorem Stmt.subperm_ids : {scopes : Scopes} → (s : Stmt) →
    (NameUse.ids (s.nameUses scopes)).Subperm s.ids
  | _, .expr _ e | _, .print _ e => e.subperm_ids.cons_right _
  | _, .varDecl _ _ init => (Expr.subperm_idsOf init).cons_right _
  | _, .ret _ value => (Expr.subperm_idsOf value).cons_right _
  | _, .funDecl _ _ _ _ _ body =>
      (((subperm_idsAll body).cons_right _).cons_right _).cons_right _
  | _, .block _ body => (subperm_idsAll body).cons_right _
  | _, .cond _ test yes none => by
      rw [nameUses, NameUse.ids_append]
      exact (test.subperm_ids.append yes.subperm_ids).cons_right _
  | _, .cond _ test yes (some no) => by
      rw [nameUses, NameUse.ids_append, NameUse.ids_append,
        ← List.append_assoc]
      exact ((test.subperm_ids.append yes.subperm_ids).append
        no.subperm_ids).cons_right _
  | _, .loop _ test body => by
      rw [nameUses, NameUse.ids_append]
      exact (test.subperm_ids.append body.subperm_ids).cons_right _

/-- The same for some statements. -/
theorem Stmt.subperm_idsAll : {scopes : Scopes} → (ss : List Stmt) →
    (NameUse.ids (Stmt.allNameUses scopes ss)).Subperm (Stmt.idsAll ss)
  | _, [] => .refl _
  | _, s :: ss => by
      rw [allNameUses, NameUse.ids_append]
      exact s.subperm_ids.append (subperm_idsAll ss)

end

/-- What is noted are some of the uses, in their order. -/
theorem notesOf_sublist (uses : List NameUse) :
    ((notesOf uses).map (·.node.id)).Sublist (NameUse.ids uses) := by
  induction uses with
  | nil => exact .slnil
  | cons u uses ih =>
    rw [notesOf, List.filterMap_cons]
    cases hlocal : u.local? with
    | none => exact ih.cons _
    | some use =>
      obtain ⟨depth, -, rfl⟩ := Option.map_eq_some_iff.1 hlocal
      exact ih.cons_cons _

/-- What a program notes, it notes at different nodes of its, whether
there are errors in it or not. -/
theorem localUses_subperm (program : List Stmt) :
    ((localUses program).map (·.node.id)).Subperm (Stmt.idsAll program) := by
  induction program with
  | nil => exact .refl _
  | cons s ss ih =>
    have hs : (s.surveyTop.notes.map (·.node.id)).Subperm s.ids :=
      (s.follows_survey.initial.sublist.map _).subperm.trans
        ((notesOf_sublist _).subperm.trans s.subperm_ids)
    rw [localUses, List.flatMap_cons, List.map_append]
    exact hs.append ih

/-- In a program whose nodes are told apart, no node has two notes. -/
theorem nodup_localUses {program : List Stmt}
    (h : (Stmt.idsAll program).Nodup) :
    ((localUses program).map (·.node.id)).Nodup := by
  obtain ⟨ids, hperm, hsublist⟩ := localUses_subperm program
  exact hperm.nodup_iff.1 (h.sublist hsublist)

end Lox
