/-
What is wrong with the names of a program, said of its text. A
declaration is wrong where its scope has declared the name before, a read
where it stands in the initializer of the local variable that it names,
and a return where no body of a function is around it (`Violates`). What
the survey of a statement stops at is the first such violation on the
walk through it, and if there is none, it does not stop
(`Stmt.verdict_surveyTop`).

`Verdict` goes along the walk, as `Answers` does for the uses: with what
was met before it decides about each occurrence, up to the first that is
wrong.
-/
import Lox.Proofs.Scoping.Occurrences

namespace Lox

-- ============================================================= violations

/-- Behind what was met before, this occurrence is wrong with this
error. -/
inductive Violates (before : List Occurrence) :
    Occurrence → BindingError → Prop
  | declaredTwice {spot : Spot} {scope : Nat} {name : Name}
      (inner : spot.scopes.head? = some scope)
      (declared : DeclaredBefore before scope name.text) :
      Violates before ⟨.declared name, spot⟩
        ⟨.declaredTwice name.text, name.pos⟩
  | readInInitializer {spot : Spot} {node : Node} {name : String}
      (inner : spot.scopes ≠ []) (initializes : spot.initializes = some name) :
      Violates before ⟨.used .read node name, spot⟩
        ⟨.readInInitializer name, node.pos⟩
  | strayReturn {spot : Spot} {node : Node}
      (outside : spot.inFunction = false) :
      Violates before ⟨.returned node, spot⟩ ⟨.strayReturn, node.pos⟩

/-- An occurrence is wrong in one way at most. -/
theorem Violates.unique {before : List Occurrence} {o : Occurrence}
    {e e' : BindingError} (h : Violates before o e)
    (h' : Violates before o e') : e = e' := by
  cases h <;> cases h' <;> rfl

/-- Nothing that is met is wrong. -/
def Faultless (met : List Occurrence) : Prop :=
  ∀ before o after, met = before ++ o :: after → ∀ e, ¬ Violates before o e

/-- The first thing that is met and wrong is so with this error. -/
def FirstViolation (met : List Occurrence) (e : BindingError) : Prop :=
  ∃ before o after, met = before ++ o :: after ∧ Violates before o e ∧
    Faultless before

/-- What is faultless ends before anything that is wrong. -/
theorem Faultless.isPrefix_of_violates
    {before front after rest : List Occurrence} {o : Occurrence}
    {e : BindingError} (h : Faultless front)
    (hwrong : Violates before o e)
    (hmet : before ++ o :: after = front ++ rest) : front <+: before := by
  rcases List.append_eq_append_iff.1 hmet with
    ⟨more, hfront, hrest⟩ | ⟨more, hbefore, -⟩
  · cases more with
    | nil => simp [hfront]
    | cons o' more =>
      obtain ⟨rfl, -⟩ := List.cons.inj hrest
      exact absurd hwrong (h before o more hfront e)
  · exact ⟨more, hbefore.symm⟩

/-- There is one first violation at most, and one error for it. -/
theorem FirstViolation.unique {met : List Occurrence} {e e' : BindingError}
    (h : FirstViolation met e) (h' : FirstViolation met e') : e = e' := by
  obtain ⟨before, o, after, hmet, hwrong, hfaultless⟩ := h
  obtain ⟨before', o', after', hmet', hwrong', hfaultless'⟩ := h'
  have hsame : before ++ o :: after = before' ++ o' :: after' :=
    hmet.symm.trans hmet'
  have hbehind := hfaultless.isPrefix_of_violates hwrong' hsame.symm
  have hbefore := hfaultless'.isPrefix_of_violates hwrong hsame
  obtain rfl : before = before' := hbehind.eq_of_length_le hbefore.length_le
  obtain ⟨rfl, -⟩ := List.cons.inj (List.append_cancel_left hsame)
  exact hwrong.unique hwrong'

/-- On the walk through these occurrences, this is the first error, or
there is none. -/
inductive Verdict : List Occurrence → List Occurrence →
    Option BindingError → Prop
  | clean {before : List Occurrence} : Verdict before [] none
  | found {before os : List Occurrence} {o : Occurrence} {e : BindingError}
      (wrong : Violates before o e) : Verdict before (o :: os) (some e)
  | pass {before os : List Occurrence} {o : Occurrence}
      {verdict : Option BindingError} (fine : ∀ e, ¬ Violates before o e)
      (rest : Verdict (before ++ [o]) os verdict) :
      Verdict before (o :: os) verdict

namespace Verdict

variable {before as bs os : List Occurrence} {verdict : Option BindingError}

theorem append (ha : Verdict before as none)
    (hb : Verdict (before ++ as) bs verdict) :
    Verdict before (as ++ bs) verdict := by
  generalize hnone : (none : Option BindingError) = v at ha
  induction ha with
  | clean => simpa using hb
  | found => cases hnone
  | pass fine _ ih => exact .pass fine (ih (by simpa using hb) hnone)

/-- What is behind the first error does not matter. -/
theorem stopped {e : BindingError} (ha : Verdict before as (some e))
    (bs : List Occurrence) : Verdict before (as ++ bs) (some e) := by
  generalize hsome : some e = v at ha
  induction ha with
  | clean => cases hsome
  | found wrong => exact .found wrong
  | pass fine _ ih => exact .pass fine (ih hsome)

/-- One survey after another, each with its part of the walk. -/
theorem bind {α β : Type} {s : Names α} {f : α → Names β}
    {all : List LocalUse} {a : α} (hs : s.Follows all a)
    (ha : Verdict before as s.error?)
    (hb : Verdict (before ++ as) bs (f a).error?) :
    Verdict before (as ++ bs) (s >>= f).error? := by
  show Verdict before (as ++ bs) (s.andThen f).error?
  rcases hs with rfl | ⟨e, hresult, -⟩
  · exact ha.append hb
  · have hstop : s.error? = some e := by rw [Survey.error?, hresult]
    have hstop' : (s.andThen f).error? = some e := by
      simp only [Survey.andThen, Survey.error?, hresult]
    rw [hstop] at ha
    rw [hstop']
    exact ha.stopped bs

/-- A survey that ends with something found on the way. -/
theorem ending {α β : Type} {s : Names α} {all : List LocalUse} {a : α}
    {b : β} (hs : s.Follows all a) (h : Verdict before as s.error?) :
    Verdict before as (s >>= fun _ => pure b : Names β).error? := by
  have hboth := h.bind (f := fun _ => pure b) hs .clean
  rwa [List.append_nil] at hboth

/-- Without an error, nothing is wrong. -/
theorem not_violates (h : Verdict before os none)
    {front back : List Occurrence} {o : Occurrence}
    (hos : os = front ++ o :: back) (e : BindingError) :
    ¬ Violates (before ++ front) o e := by
  generalize hnone : (none : Option BindingError) = v at h
  induction h generalizing front with
  | clean => simp at hos
  | found => cases hnone
  | pass fine _ ih =>
    cases front with
    | nil =>
      obtain ⟨rfl, -⟩ := List.cons.inj hos
      simpa using fine e
    | cons o₁ front =>
      obtain ⟨rfl, hrest⟩ := List.cons.inj hos
      simpa using ih hrest hnone

/-- The error is that of a violation, and nothing before it is wrong. -/
theorem exists_violates {e : BindingError}
    (h : Verdict before os (some e)) :
    ∃ front o back, os = front ++ o :: back ∧
      Violates (before ++ front) o e ∧ Verdict before front none := by
  generalize hsome : some e = v at h
  induction h with
  | clean => cases hsome
  | @found before os o e wrong =>
    cases hsome
    exact ⟨[], o, os, rfl, by simpa using wrong, .clean⟩
  | @pass before os o verdict fine _ ih =>
    obtain ⟨front, o', back, rfl, hviolates, hfront⟩ := ih hsome
    exact ⟨o :: front, o', back, rfl, by simpa using hviolates,
      .pass fine hfront⟩

theorem faultless (h : Verdict [] os none) : Faultless os :=
  fun _ _ _ hos e => by simpa using h.not_violates hos e

theorem firstViolation {e : BindingError} (h : Verdict [] os (some e)) :
    FirstViolation os e := by
  obtain ⟨before, o, after, hos, hviolates, hbefore⟩ := h.exists_violates
  exact ⟨before, o, after, hos, by simpa using hviolates, hbefore.faultless⟩

end Verdict

-- ================================================================= scopes

section Trees

variable {before : List Occurrence} {spot : Spot} {scopes : Scopes}

theorem Scopes.error?_use (kind : UseKind) (node : Node) (name : String) :
    (scopes.use kind node name).error? = none := by
  unfold Scopes.use
  cases scopes.depth? name <;> rfl

/-- A declaration is wrong if its scope has the name. -/
theorem Scopes.verdict_declare (h : Shown before spot.scopes scopes)
    (name : Name) :
    Verdict before [⟨.declared name, spot⟩]
      (scopes.declare name).error? := by
  unfold Scopes.declare
  obtain ⟨ids, inFunction, initializes⟩ := spot
  cases h with
  | nil =>
    refine .pass ?_ .clean
    rintro e (_ | _)
    rename_i hinner
    cases hinner
  | @cons scope id outer ids hscope _ =>
    simp only
    split
    case isTrue hmem =>
      exact .found (.declaredTwice rfl ((hscope name.text).1 hmem))
    case isFalse hmem =>
      refine .pass ?_ .clean
      rintro e (_ | _)
      rename_i scope' hdeclared hinner
      obtain rfl : id = scope' := Option.some.inj hinner
      exact hmem ((hscope name.text).2 hdeclared)

theorem Scopes.verdict_declareAll (names : List Name) {scope : Scope}
    {ahead : List Nat}
    (h : Reached before spot (scope :: scopes) ahead) :
    Verdict before (names.map (⟨.declared ·, spot⟩))
      (declareAll (scope :: scopes) names).error? := by
  induction names generalizing before scope with
  | nil => exact .clean
  | cons name names ih =>
    have hrest := ih (h.declare name)
    exact (verdict_declare h.shown name).bind
      (follows_declare (scope :: scopes) name) hrest

-- ============================================================ expressions

/-- The variable that is pending is the one whose initializer this is, if
it is local. -/
def Awaits (spot : Spot) (pending : Option String) : Prop :=
  ∀ name, pending = some name
    ↔ spot.scopes ≠ [] ∧ spot.initializes = some name

variable {pending : Option String}

mutual

/-- In an expression, only reads of what it initializes are wrong. -/
theorem Expr.verdict (hawaits : Awaits spot pending) :
    {before : List Occurrence} → (e : Expr) →
      Verdict before (e.occurrences spot) (e.survey scopes pending).error?
  | _, .literal _ _ => .clean
  | _, .var node name => by
      rw [Expr.survey]
      split
      case isTrue hpending =>
        obtain ⟨hinner, hinit⟩ := (hawaits name).1 hpending
        exact .found (.readInInitializer hinner hinit)
      case isFalse hpending =>
        rw [Scopes.error?_use]
        refine .pass ?_ .clean
        -- A use is wrong only where its own variable is initialized.
        rintro e (_ | _)
        rename_i hinner hinit
        exact hpending ((hawaits name).2 ⟨hinner, hinit⟩)
  | _, .assign node name value => by
      refine (value.verdict hawaits).bind value.follows_survey ?_
      rw [Scopes.error?_use]
      exact .pass nofun .clean
  | _, .group _ inner => inner.verdict hawaits
  | _, .unary _ _ operand => operand.verdict hawaits
  | _, .binary _ _ left right | _, .logical _ _ left right =>
      (left.verdict hawaits).bind left.follows_survey
        (right.verdict hawaits)
  | _, .call _ _ callee args =>
      (callee.verdict hawaits).bind callee.follows_survey
        (verdict_all hawaits args)

/-- The same for some expressions. -/
theorem Expr.verdict_all (hawaits : Awaits spot pending) :
    {before : List Occurrence} → (es : List Expr) →
      Verdict before (Expr.allOccurrences spot es)
        (Expr.surveyAll scopes pending es).error?
  | _, [] => .clean
  | _, e :: es =>
      (e.verdict hawaits).bind e.follows_survey (verdict_all hawaits es)

end

/-- Outside of initializers nothing is pending. -/
theorem awaits_none (h : spot.initializes = none) : Awaits spot none :=
  fun name => by simp [h]

theorem Expr.verdict_init (h : Shown before spot.scopes scopes)
    (name : Name) (init : Option Expr) :
    Verdict before (Expr.occurrencesOf (spot.initializer name) init)
      (Expr.surveyInit scopes name.text init).error? := by
  cases init with
  | none => exact .clean
  | some e =>
    refine e.verdict fun other => ?_
    obtain ⟨ids, inFunction, initializes⟩ := spot
    cases h with
    | nil => simp [Spot.initializer]
    | cons => simp [Spot.initializer]

-- ============================================================= statements

mutual

/-- From a point of the walk, the survey of a statement stops at the first
occurrence that is wrong. -/
theorem Stmt.verdict : {before : List Occurrence} → {spot : Spot} →
    {scopes : Scopes} → (s : Stmt) → s.WellFormed → s.ids.Nodup →
      Reached before spot scopes s.ids → spot.initializes = none →
        Verdict before (s.occurrences spot)
          (s.survey spot.inFunction scopes).error?
  | _, _, _, .expr _ e, _, _, _, hinit | _, _, _, .print _ e, _, _, _, hinit =>
      (e.verdict (awaits_none hinit)).ending e.follows_survey
  | _, spot, scopes, .varDecl _ name init, _, _, h, _ =>
      (Scopes.verdict_declare h.shown name).bind
        (scopes.follows_declare name)
        ((Expr.verdict_init (h.declare name).shown name init).ending
          (Expr.follows_surveyInit init))
  | _, spot, scopes, .funDecl node name _ params _ body, hformed, hnodup, h,
      _ => by
      obtain ⟨hopened, hbody, hnodup⟩ := h.function hnodup
      have hparams :=
        Scopes.follows_declareAll (scopes.add name.text) [] params
      rw [List.append_nil] at hparams
      refine (Scopes.verdict_declare h.shown name).bind
        (scopes.follows_declare name) ?_
      exact (Scopes.verdict_declareAll params hopened).bind hparams
        ((verdict_all body hformed hnodup hbody rfl).ending
          (Stmt.follows_surveyAll body))
  | _, _, _, .block _ body, hformed, hnodup, h, hinit => by
      obtain ⟨hbody, hnodup⟩ := h.block hnodup
      exact (verdict_all body hformed hnodup hbody hinit).ending
        (Stmt.follows_surveyAll body)
  | _, _, _, .cond node test yes none, ⟨_, _, hformed⟩, hnodup, h, hinit => by
      obtain ⟨hyes, hnodup⟩ := Reached.tested h hnodup
      rw [occurrences]
      exact (test.verdict (awaits_none hinit)).bind test.follows_survey
        ((yes.verdict hformed hnodup hyes hinit).ending yes.follows_survey)
  | _, _, _, .cond node test yes (some no),
      ⟨_, ⟨hdeclares, hformed⟩, _, hformed'⟩, hnodup, h, hinit => by
      rw [ids, List.append_assoc] at h hnodup
      obtain ⟨hbranches, hnodup⟩ := Reached.tested h hnodup
      obtain ⟨⟨hyes, hnodupYes⟩, hno, hnodupNo⟩ :=
        hbranches.branches hformed hdeclares hnodup
      rw [occurrences]
      exact (test.verdict (awaits_none hinit)).bind test.follows_survey
        ((yes.verdict hformed hnodupYes hyes hinit).bind yes.follows_survey
          ((no.verdict hformed' hnodupNo hno hinit).ending
            no.follows_survey))
  | _, _, _, .loop node test body, ⟨_, _, hformed⟩, hnodup, h, hinit => by
      obtain ⟨hbody, hnodup⟩ := Reached.tested h hnodup
      rw [occurrences]
      exact (test.verdict (awaits_none hinit)).bind test.follows_survey
        ((body.verdict hformed hnodup hbody hinit).ending
          body.follows_survey)
  | _, ⟨_, false, _⟩, _, .ret _ _, _, _, _, _ => .found (.strayReturn rfl)
  | _, ⟨_, true, _⟩, _, .ret _ value, _, _, _, hinit => by
      refine .pass ?_ ?_
      · rintro e (_ | _ | houtside)
        cases houtside
      · cases value with
        | none => exact .clean
        | some e =>
          exact (e.verdict (awaits_none hinit)).ending e.follows_survey

/-- The same for some statements. -/
theorem Stmt.verdict_all : {before : List Occurrence} → {spot : Spot} →
    {scopes : Scopes} → (ss : List Stmt) → AllWellFormed ss →
      (idsAll ss).Nodup → Reached before spot scopes (idsAll ss) →
      spot.initializes = none →
        Verdict before (allOccurrences spot ss)
          (surveyAll spot.inFunction scopes ss).error?
  | _, _, _, [], _, _, _, _ => .clean
  | _, _, _, s :: ss, hformed, hnodup, h, hinit => by
      obtain ⟨⟨hs, hnodupHead⟩, hss, hnodupTail⟩ := h.split hformed.1 hnodup
      exact (s.verdict hformed.1 hnodupHead hs hinit).bind s.follows_survey
        (verdict_all ss hformed.2 hnodupTail hss hinit)

end

end Trees

-- =============================================================== programs

/-- The survey of a statement of the top level stops at its first
violation. -/
theorem Stmt.verdict_surveyTop (s : Stmt) (hformed : s.WellFormed)
    (hnodup : s.ids.Nodup) :
    Verdict [] (s.occurrences .top) s.surveyTop.error? :=
  s.verdict hformed hnodup (.start _) rfl

/-- The same of each statement of a program that was read. -/
theorem verdict_of_mem {program : List Stmt}
    (hformed : Stmt.AllWellFormed program)
    (hnodup : (Stmt.idsAll program).Nodup) :
    ∀ s ∈ program, Verdict [] (s.occurrences .top) s.surveyTop.error? := by
  induction program with
  | nil => nofun
  | cons s ss ih =>
    obtain ⟨hs, hss, -⟩ := List.nodup_append.1 hnodup
    rw [List.forall_mem_cons]
    exact ⟨s.verdict_surveyTop hformed.1 hs, ih hformed.2 hss⟩

end Lox
