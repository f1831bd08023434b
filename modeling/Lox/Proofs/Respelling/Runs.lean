/-
Respelled programs run alike. From memories that go together, respelled
expressions, calls of functions that go together and respelled statements
end alike, in memories that go together again (`TogetherInRoom`). The
induction is on the room that is left; each case takes the parts from the
room below and puts them together as `Together` allows.

Every memory of a session goes with itself, so a program and its
respelling may be run in it and come to the same
(`Lexical.Session.runAccepted_respelled`).
-/
import Lox.Proofs.Respelling.Together

namespace Lox

open List (Forall₂)
open Lexical (Locals View Memory)
open Run

variable {r : Respelling} {rounds room : Nat} {w : Sides} {Γ : NamePairs}
  {view view' : View}

-- =============================================================== one room

/-- The end of a statement in both runs, and what is seen behind it. -/
def RespelledBehind (r : Respelling) (Γ : NamePairs) (seen : Seen)
    (c c' : Completion × View) : Prop :=
  c.1.Respelled r seen c'.1 ∧ SameView Γ c.2 c'.2

/-- In this room, what goes together does so when it is run. -/
structure TogetherInRoom (r : Respelling) (rounds room : Nat) : Prop where
  evaluate : ∀ {w Γ view view' e e'}, w.Respelled r →
    SameViewInside Γ view view' → e.Respelled r Γ e' →
      Together r w (Lexical.evaluate rounds room view e)
        (Lexical.evaluate rounds room view' e') (Value.Respelled r)
  call : ∀ {w f f' args args'}, w.Respelled r → f.Respelled r w.seen f' →
    Forall₂ (Value.Respelled r w.seen) args args' →
      Together r w (Lexical.call rounds room f args)
        (Lexical.call rounds room f' args') (Value.Respelled r)
  execute : ∀ {w Γ Γ' view view' s s'}, w.Respelled r →
    SameView Γ view view' → s.Respelled r Γ s' Γ' →
      Together r w (Lexical.execute rounds room view s)
        (Lexical.execute rounds room view' s') (RespelledBehind r Γ')

section Room

variable (hroom : TogetherInRoom r rounds room)

include hroom

-- ============================================================ expressions

/-- Lists of arguments come out value by value, and a value of the first is
still there after the second: what was seen stays seen. -/
theorem TogetherInRoom.evaluateAll {es es' : List Expr}
    (hes : Expr.AllRespelled r Γ es es') (hw : w.Respelled r)
    (hsees : SameViewInside Γ view view') :
    Together r w (each (Lexical.evaluate rounds room view) es)
      (each (Lexical.evaluate rounds room view') es')
      fun seen => Forall₂ (Value.Respelled r seen) := by
  induction es generalizing es' w with
  | nil =>
    cases hes
    exact .pure hw .nil
  | cons e es ih =>
    cases hes with
    | cons he hes =>
      refine (hroom.evaluate hw hsees he).bind
        fun w₁ v v' hw₁ hgrows₁ hv => ?_
      refine (ih hes hw₁).bind fun w₂ vs vs' hw₂ hgrows₂ hvs => ?_
      exact .pure hw₂ (.cons (hv.mono hgrows₂) hvs)

/-- One case per expression. A variable is where the two views differ, and
there the respelled name finds the respelled binding. -/
theorem TogetherInRoom.evaluate_succ {e e' : Expr}
    (hw : w.Respelled r) (hsees : SameViewInside Γ view view')
    (he : e.Respelled r Γ e') :
    Together r w (Lexical.evaluate rounds (room + 1) view e)
      (Lexical.evaluate rounds (room + 1) view' e')
      (Value.Respelled r) := by
  unfold Lexical.evaluate
  rw [he.node]
  refine .located ?_
  cases he with
  | @literal node value => exact .pure hw (.plain value.value_ne_function)
  | var huse => exact readName_together hw hsees huse
  | assign he huse =>
    refine (hroom.evaluate hw hsees he).bind fun w₁ v v' hw₁ _ hv => ?_
    refine (writeName_together hw₁ hsees huse hv).bind
      fun w₂ _ _ hw₂ hgrows₂ _ => ?_
    exact .pure hw₂ (hv.mono hgrows₂)
  | group he => exact hroom.evaluate hw hsees he
  | @unary node op e e' he =>
    refine (hroom.evaluate hw hsees he).bind fun w₁ v v' hw₁ _ hv => ?_
    refine .ofExcept hw₁ (op.apply_ne_function v) (op.apply_ne_function v') ?_
    rw [← op.apply_mapFn, ← op.apply_mapFn, hv.face]
  | @binary node op a a' b b' ha hb =>
    refine (hroom.evaluate hw hsees ha).bind fun w₁ v v' hw₁ _ hv => ?_
    refine (hroom.evaluate hw₁ hsees hb).bind fun w₂ u u' hw₂ _ hu => ?_
    refine .ofExcept hw₂ (op.apply_ne_function v u)
      (op.apply_ne_function v' u') ?_
    rw [← op.apply_mapFn unnoticed_face, ← op.apply_mapFn unnoticed_face,
      hv.face, hu.face]
  | @logical node op a a' b b' ha hb =>
    refine (hroom.evaluate hw hsees ha).bind fun w₁ v v' hw₁ _ hv => ?_
    rw [hv.decidedBy op]
    split
    · exact .pure hw₁ hv
    · exact hroom.evaluate hw₁ hsees hb
  | call hcallee hargs =>
    refine (hroom.evaluate hw hsees hcallee).bind
      fun w₁ f f' hw₁ _ hf => ?_
    rw [hf.callable]
    split
    · refine (hroom.evaluateAll hargs hw₁ hsees).bind
        fun w₂ vs vs' hw₂ hgrows₂ hvs => ?_
      exact hroom.call hw₂ (hf.mono hgrows₂) hvs
    · refine .raise hw₁ (.inl ?_)
      rw [RuntimeFault.mapFn, RuntimeFault.mapFn, hf.face]

-- ================================================================== calls

/-- A statement may declare a name, so the next one starts with the names as
they are behind it. -/
theorem TogetherInRoom.executeAll {ss ss' : List Stmt}
    (hss : Stmt.AllRespelled r Γ ss ss') (hw : w.Respelled r)
    (hsees : SameView Γ view view') :
    Together r w
      (Lexical.untilReturn (Lexical.execute rounds room) view ss)
      (Lexical.untilReturn (Lexical.execute rounds room) view' ss')
      (Completion.Respelled r) := by
  induction ss generalizing ss' w Γ view view' with
  | nil =>
    cases hss
    exact .pure hw .normal
  | cons s ss ih =>
    cases hss with
    | cons hs hss =>
      refine (hroom.execute hw hsees hs).bind
        fun w₁ c c' hw₁ _ hc => ?_
      obtain ⟨completion, behind⟩ := c
      obtain ⟨completion', behind'⟩ := c'
      obtain ⟨hcompletion, hsees₁⟩ := hc
      cases hcompletion with
      | normal => exact ih hss hw₁ hsees₁
      | returned hv => exact .pure hw₁ (.returned hv)

omit hroom in
theorem checkArity_together {expected : Nat} {args args' : List Value}
    (hw : w.Respelled r) (hargs : args'.length = args.length) :
    Together r w (checkArity expected args) (checkArity expected args')
      fun _ _ _ => args.length = expected := by
  unfold checkArity
  rw [hargs]
  split
  · next h => exact .pure hw h
  · exact .raise hw (.inl rfl)

omit hroom in
theorem readClock_together (hw : w.Respelled r) :
    Together r w Lexical.readClock Lexical.readClock
      fun _ a b => b = a :=
  .of_ok ⟨{ w.left with clock := w.left.clock.later },
      { w.right with clock := w.right.clock.later }⟩
    rfl rfl { hw with clock := congrArg Clock.later hw.clock } (.refl _)
    (congrArg Clock.now hw.clock)

omit hroom in
theorem printLine_together (hw : w.Respelled r) (line : String) :
    Together r w (Lexical.printLine line) (Lexical.printLine line)
      fun _ _ _ => True :=
  .of_ok ⟨{ w.left with output := w.left.output ++ line ++ "\n" },
      { w.right with output := w.right.output ++ line ++ "\n" }⟩
    rfl rfl
    { hw with output := congrArg (· ++ line ++ "\n") hw.output } (.refl _)
    trivial

omit hroom in
/-- A native hands on what is at the same place. -/
theorem Handed.respelled {seen : Seen} {hand hand' : List Value}
    (h : Forall₂ (Value.Respelled r seen) hand hand') (v : Handed) :
    (v.value hand).Respelled r seen (v.value hand') := by
  cases v with
  | own p => exact .plain p.value_ne_function
  | held place =>
    have hplace := rel_getElem? h place
    rw [value, value, List.getD_eq_getElem?_getD, List.getD_eq_getElem?_getD]
    revert hplace
    generalize hand[place]? = held
    generalize hand'[place]? = held'
    intro hplace
    cases hplace with
    | none => exact .plain (Plain.value_ne_function .nil)
    | some hv => exact hv

omit hroom in
/-- What a native hands on is a plain value or one it was handed, and either
is respelled. -/
theorem Handed.allRespelled {seen : Seen} {hand hand' : List Value}
    (h : Forall₂ (Value.Respelled r seen) hand hand') (vs : List Handed) :
    Forall₂ (Value.Respelled r seen) (vs.map (·.value hand))
      (vs.map (·.value hand')) := by
  induction vs with
  | nil => exact .nil
  | cons v vs ih => exact .cons (v.respelled h) ih

omit hroom in
/-- A native sees the same of values that go together. -/
theorem sights_respelled {seen : Seen} {vs vs' : List Value}
    (h : Forall₂ (Value.Respelled r seen) vs vs') :
    vs'.map Value.sight = vs.map Value.sight := by
  induction h with
  | nil => rfl
  | cons hv _ ih => rw [List.map_cons, List.map_cons, hv.sight, ih]

/-- A native does the same with values that go together. -/
theorem TogetherInRoom.perform {hand hand' : List Value} (deed : Deed)
    (hw : w.Respelled r)
    (hhand : Forall₂ (Value.Respelled r w.seen) hand hand') :
    Together r w
      (Run.perform Lexical.readClock Lexical.printLine
        (Lexical.call rounds room) hand deed)
      (Run.perform Lexical.readClock Lexical.printLine
        (Lexical.call rounds room) hand' deed) (Value.Respelled r) := by
  induction deed generalizing w hand hand' with
  | give v => exact .pure hw (v.respelled hhand)
  | look next ih =>
    refine (readClock_together hw).bind fun w₁ _ now hw₁ hgrows₁ hnow => ?_
    subst hnow
    exact ih now hw₁ (hhand.imp fun _ _ h => h.mono hgrows₁)
  | print line next ih =>
    refine (printLine_together hw line).bind fun w₁ _ _ hw₁ hgrows₁ _ => ?_
    exact ih hw₁ (hhand.imp fun _ _ h => h.mono hgrows₁)
  | call f args next ih =>
    refine (hroom.call hw (f.respelled hhand)
      (Handed.allRespelled hhand args)).bind fun w₁ v v' hw₁ hgrows₁ hv => ?_
    rw [hv.sight]
    exact ih v.sight hw₁ (List.rel_append
      (hhand.imp fun _ _ h => h.mono hgrows₁) (.cons hv .nil))

/-- A call binds respelled parameters to respelled values and runs the
respelled body. A native sees no names, so it does the same on both sides
until it calls. -/
theorem TogetherInRoom.call_succ {f f' : Value} {args args' : List Value}
    (hw : w.Respelled r) (hf : f.Respelled r w.seen f')
    (hargs : Forall₂ (Value.Respelled r w.seen) args args') :
    Together r w (Lexical.call rounds (room + 1) f args)
      (Lexical.call rounds (room + 1) f' args') (Value.Respelled r) := by
  have hlength := hargs.length_eq.symm
  cases hf with
  | @function f f' hstamp hname hruns =>
    obtain ⟨Γ, inner, locals, locals', hleft, hright, hlocals, hparams,
      hbody⟩ := hruns
    unfold Lexical.call
    rw [hparams.length_eq]
    refine (checkArity_together hw hlength).bind
      fun w₁ _ _ hw₁ hgrows₁ harity => ?_
    -- Each function still sees what it saw where it was made.
    have hclosure : w₁.left.closure f.stamp = ⟨locals, true, none⟩ := by
      rw [Memory.closure, hgrows₁.left _ _ hleft]
      rfl
    have hclosure' : w₁.right.closure f'.stamp = ⟨locals', true, none⟩ := by
      rw [Memory.closure, hgrows₁.right _ _ hright]
      rfl
    have hsees : SameView ([] :: Γ) ⟨locals, true, none⟩
        ⟨locals', true, none⟩ :=
      ⟨hlocals, rfl, rfl, rfl, rfl⟩
    have hdeclared := declareAll_together hparams hw₁ hsees
      (hargs.imp fun _ _ h => h.mono hgrows₁) harity
    rw [← hclosure, ← hclosure'] at hdeclared
    exact hdeclared.bind fun w₂ _ _ hw₂ _ hsees₂ =>
      (hroom.executeAll hbody hw₂ hsees₂).bind fun w₃ _ _ hw₃ _ hc =>
        .pure hw₃ hc.value
  | plain hplain =>
    cases f with
    | function f => exact absurd rfl (hplain f)
    | native f =>
      unfold Lexical.call
      refine (checkArity_together hw hlength).bind
        fun w₁ _ _ hw₁ hgrows₁ _ => ?_
      have hargs₁ := hargs.imp fun _ _ h => h.mono hgrows₁
      rw [sights_respelled hargs]
      exact hroom.perform _ hw₁ hargs₁
    | _ => exact .raise hw (.inl rfl)

-- ============================================================= statements

/-- The rounds of a loop. Each starts with the view from before the
loop. -/
theorem TogetherInRoom.loop {test test' : Expr} {body body' : Stmt}
    {Γ₁ : NamePairs} (hw : w.Respelled r) (hsees : SameView Γ view view')
    (htest : test.Respelled r Γ test')
    (hbody : body.Respelled r Γ body' Γ₁) (budget : Nat) :
    Together r w
      (repeatWhile
        (return (← Lexical.evaluate rounds room view test).truthy)
        (return (← Lexical.execute rounds room view body).1) budget)
      (repeatWhile
        (return (← Lexical.evaluate rounds room view' test').truthy)
        (return (← Lexical.execute rounds room view' body').1) budget)
      (Completion.Respelled r) := by
  refine Together.repeatWhile ?_ ?_ budget w hw (.refl w.seen)
  · exact fun w₁ hw₁ _ => (hroom.evaluate hw₁ (.settled hsees) htest).bind
      fun w₂ v v' hw₂ _ hv => .pure hw₂ hv.truthy
  · exact fun w₁ hw₁ _ => (hroom.execute hw₁ hsees hbody).bind
      fun w₂ c c' hw₂ _ hc => .pure hw₂ hc.1

/-- One case per statement. Only a declaration changes the names in force. -/
theorem TogetherInRoom.execute_succ {Γ' : NamePairs} {s s' : Stmt}
    (hw : w.Respelled r) (hsees : SameView Γ view view')
    (hs : s.Respelled r Γ s' Γ') :
    Together r w (Lexical.execute rounds (room + 1) view s)
      (Lexical.execute rounds (room + 1) view' s')
      (RespelledBehind r Γ') := by
  unfold Lexical.execute
  rw [hs.node]
  refine .located ?_
  -- What is seen behind a branch is what was seen before it.
  have hbranch {w₁ : Sides} {Γ₁ : NamePairs} {t t' : Stmt}
      (hw₁ : w₁.Respelled r) (ht : t.Respelled r Γ t' Γ₁) :
      Together r w₁
        (do return ((← Lexical.execute rounds room view t).1, view))
        (do return ((← Lexical.execute rounds room view' t').1, view'))
        (RespelledBehind r Γ) :=
    (hroom.execute hw₁ hsees ht).bind fun w₂ c c' hw₂ _ hc =>
      .pure hw₂ ⟨hc.1, hsees⟩
  have hinside := SameViewInside.settled hsees
  cases hs with
  | expr he =>
    exact (hroom.evaluate hw hinside he).bind fun w₁ _ _ hw₁ _ _ =>
      .pure hw₁ ⟨.normal, hsees⟩
  | print he =>
    refine (hroom.evaluate hw hinside he).bind fun w₁ v v' hw₁ _ hv => ?_
    rw [hv.printed]
    exact (printLine_together hw₁ _).bind fun w₂ _ _ hw₂ _ _ =>
      .pure hw₂ ⟨.normal, hsees⟩
  | @varDecl _ _ name name' init init' hname hinit =>
    have hdeclare : ∀ w₁ v v', w₁.Respelled r → w.seen.Grows w₁.seen →
        v.Respelled r w₁.seen v' → Together r w₁
          (do return (.normal, ← Lexical.declare view name.text v))
          (do return (.normal, ← Lexical.declare view' name'.text v'))
          (RespelledBehind r (Γ.add name.text name'.text)) :=
      fun w₁ v v' hw₁ _ hv => (declare_together hw₁ hsees hname hv).bind
        fun w₂ _ _ hw₂ _ hview => .pure hw₂ ⟨.normal, hview⟩
    cases hinit with
    | none =>
      have hnil : Together r w (pure .nil) (pure .nil) (Value.Respelled r) :=
        .pure hw (.plain nofun)
      exact hnil.bind hdeclare
    | some he =>
      exact (hroom.evaluate hw (hsees.initializing _ _) he).bind hdeclare
  | funDecl hname hparams hbody =>
    exact (declareFunction_together hw hsees hname hparams hbody).bind
      fun w₁ _ _ hw₁ _ hview => .pure hw₁ ⟨.normal, hview⟩
  | block hbody =>
    exact (hroom.executeAll hbody hw hsees.inside).bind
      fun w₁ _ _ hw₁ _ hc => .pure hw₁ ⟨hc, hsees⟩
  | cond htest hyes =>
    refine (hroom.evaluate hw hinside htest).bind
      fun w₁ v v' hw₁ _ hv => ?_
    rw [hv.truthy]
    split
    · exact hbranch hw₁ hyes
    · exact .pure hw₁ ⟨.normal, hsees⟩
  | condElse htest hyes hno =>
    refine (hroom.evaluate hw hinside htest).bind
      fun w₁ v v' hw₁ _ hv => ?_
    rw [hv.truthy]
    split
    · exact hbranch hw₁ hyes
    · exact hbranch hw₁ hno
  | loop htest hbody =>
    exact (hroom.loop hw hsees htest hbody rounds).bind
      fun w₁ _ _ hw₁ _ hc => .pure hw₁ ⟨hc, hsees⟩
  | ret hvalue =>
    cases hvalue with
    | none => exact .pure hw ⟨.returned (.plain nofun), hsees⟩
    | some he =>
      exact (hroom.evaluate hw hinside he).bind fun w₁ _ _ hw₁ _ hv =>
        .pure hw₁ ⟨.returned hv, hsees⟩

end Room

/-- In whatever room, what goes together does so when it is run. -/
theorem togetherInRoom (r : Respelling) (rounds room : Nat) :
    TogetherInRoom r rounds room := by
  induction room with
  | zero =>
    refine ⟨?_, ?_, ?_⟩
    · intro w Γ view view' e e' hw _ _
      unfold Lexical.evaluate
      exact .of_error rfl rfl .stackOverflow hw
    · intro w f f' args args' hw _ _
      unfold Lexical.call
      exact .of_error rfl rfl .stackOverflow hw
    · intro w Γ Γ' view view' s s' hw _ _
      unfold Lexical.execute
      exact .of_error rfl rfl .stackOverflow hw
  | succ room ih =>
    exact ⟨ih.evaluate_succ, ih.call_succ, ih.execute_succ⟩

-- =============================================================== programs

/-- Respelled programs run alike. -/
theorem runProgram_together {program program' : List Stmt}
    (hw : w.Respelled r) (h : Stmt.AllRespelled r [] program program') :
    Together r w (Lexical.runProgram rounds room program)
      (Lexical.runProgram rounds room program') fun _ _ _ => True := by
  have hsees : SameView [] View.top View.top := ⟨.nil, rfl, rfl, rfl, rfl⟩
  unfold Lexical.runProgram
  refine ((togetherInRoom r rounds room).executeAll h hw hsees).bind
    fun w₁ c c' hw₁ _ hc => ?_
  cases hc with
  | normal => exact .pure hw₁ trivial
  | returned hv => exact .of_error rfl rfl (.strayReturn hv.face) hw₁

end Lox
