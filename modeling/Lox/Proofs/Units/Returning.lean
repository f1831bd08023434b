/-
Returns. A program is bound only if every return stands inside a
function, so what runs at the top level never returns, and a return that
runs does so in the body of a function that was called.

From the call to the return there are only statements: the moments
between them end as the return does, each at once when the one inside it
has ended (`Begins.returns`). So the call takes the value of the return
and nothing runs in between, and no return is left over for the program
or the command line.
-/
import Lox.CommandLine
import Lox.Proofs.Run.Raised
import Lox.Proofs.Scoping.Found

namespace Lox

open Run

-- =========================================================== at the top

mutual

/-- Whether there is a return in the statement, functions apart. -/
def Stmt.returns : Stmt → Bool
  | .expr _ _ | .print _ _ | .varDecl _ _ _ | .funDecl _ _ _ _ _ _ => false
  | .block _ body => anyReturns body
  | .cond _ _ yes none => yes.returns
  | .cond _ _ yes (some no) => yes.returns || no.returns
  | .loop _ _ body => body.returns
  | .ret _ _ => true

/-- Whether there is one in any of the statements. -/
def Stmt.anyReturns : List Stmt → Bool
  | [] => false
  | s :: ss => s.returns || anyReturns ss

end

mutual

/-- A statement that can be bound outside a function has no return. -/
theorem Stmt.not_returns : (s : Stmt) → ∀ {scopes scopes' : Scopes}
    {notes : List LocalUse}, s.survey false scopes = ⟨notes, .ok scopes'⟩ →
      s.returns = false
  | .expr _ _, _, _, _, _ | .print _ _, _, _, _, _
  | .varDecl _ _ _, _, _, _, _ | .funDecl _ _ _ _ _ _, _, _, _, _ => rfl
  | .block _ body, _, _, _, h => by
      rw [survey, Survey.bind_eq_ok] at h
      obtain ⟨_, _, _, hbody, -, -⟩ := h
      exact not_anyReturns body hbody
  | .cond _ _ yes none, _, _, _, h => by
      rw [survey, Survey.bind_eq_ok] at h
      obtain ⟨_, _, _, -, h, -⟩ := h
      obtain ⟨_, _, _, hyes, -, -⟩ := Survey.bind_eq_ok.1 h
      exact not_returns yes hyes
  | .cond _ _ yes (some no), _, _, _, h => by
      rw [survey, Survey.bind_eq_ok] at h
      obtain ⟨_, _, _, -, h, -⟩ := h
      obtain ⟨_, _, _, hyes, h, -⟩ := Survey.bind_eq_ok.1 h
      obtain ⟨_, _, _, hno, -, -⟩ := Survey.bind_eq_ok.1 h
      rw [returns, not_returns yes hyes, not_returns no hno]
      rfl
  | .loop _ _ body, _, _, _, h => by
      rw [survey, Survey.bind_eq_ok] at h
      obtain ⟨_, _, _, -, h, -⟩ := h
      obtain ⟨_, _, _, hbody, -, -⟩ := Survey.bind_eq_ok.1 h
      exact not_returns body hbody
  | .ret _ _, _, _, _, h => by
      simp [survey] at h

/-- The same for some statements. -/
theorem Stmt.not_anyReturns : (ss : List Stmt) → ∀ {scopes scopes' : Scopes}
    {notes : List LocalUse},
      surveyAll false scopes ss = ⟨notes, .ok scopes'⟩ →
        anyReturns ss = false
  | [], _, _, _, _ => rfl
  | s :: ss, _, _, _, h => by
      rw [surveyAll, Survey.bind_eq_ok] at h
      obtain ⟨_, _, _, hs, hss, -⟩ := h
      rw [anyReturns, not_returns s hs, not_anyReturns ss hss]
      rfl

end

section Normal

variable {setting : Setting} {room : Nat}

theorem untilReturn_normal {ss : List Stmt}
    (hexecute : ∀ {s}, Stmt.returns s = false → ∀ {m m' completion},
      execute setting room s m = .ok completion m' → completion = .normal)
    (hss : Stmt.anyReturns ss = false) {m m' : Machine}
    {completion : Completion}
    (h : untilReturn (execute setting room) ss m = .ok completion m') :
    completion = .normal := by
  induction ss generalizing m with
  | nil =>
    cases h
    rfl
  | cons s ss ih =>
    obtain ⟨hs, hothers⟩ := Bool.or_eq_false_iff.1 hss
    obtain ⟨first, m₁, hrun, hmore⟩ := bind_eq_ok.1 h
    obtain rfl := hexecute hs hrun
    exact ih hothers hmore

theorem repeatWhile_normal {test : Expr} {body : Stmt}
    (hbody : ∀ {m m' completion},
      execute setting room body m = .ok completion m' → completion = .normal)
    {rounds : Nat} {m m' : Machine} {completion : Completion}
    (h : repeatWhile (return (← evaluate setting room test).truthy)
      (execute setting room body) rounds m = .ok completion m') :
    completion = .normal := by
  induction rounds generalizing m with
  | zero => cases h
  | succ rounds ih =>
    unfold repeatWhile at h
    obtain ⟨again, m₁, -, h⟩ := bind_eq_ok.1 h
    cases again with
    | false =>
      cases h
      rfl
    | true =>
      obtain ⟨first, m₂, hfirst, hmore⟩ := bind_eq_ok.1 h
      obtain rfl := hbody hfirst
      exact ih hmore

/-- A statement without a return does not return. -/
theorem execute_normal {s : Stmt} (hs : s.returns = false) {m m' : Machine}
    {completion : Completion}
    (h : execute setting room s m = .ok completion m') :
    completion = .normal := by
  induction room generalizing s m m' completion with
  | zero =>
    unfold execute at h
    cases h
  | succ room ih =>
    unfold execute at h
    have hrun := located_eq_ok.1 h
    cases s with
    | expr node value =>
      obtain ⟨_, _, -, hrun⟩ := bind_eq_ok.1 hrun
      cases hrun
      rfl
    | print node value =>
      obtain ⟨_, _, -, hrun⟩ := bind_eq_ok.1 hrun
      cases hrun
      rfl
    | varDecl node name init =>
      cases init with
      | none =>
        cases hrun
        rfl
      | some e =>
        obtain ⟨_, _, -, hrun⟩ := bind_eq_ok.1 hrun
        cases hrun
        rfl
    | funDecl =>
      cases hrun
      rfl
    | block node body =>
      obtain ⟨env, m₁, hcurrent, hrun⟩ := bind_eq_ok.1 hrun
      cases hcurrent
      obtain ⟨env, m₂, henter, hrun⟩ := bind_eq_ok.1 hrun
      obtain ⟨m₃, hbody, -⟩ := within_eq_ok hrun
      exact untilReturn_normal ih hs hbody
    | cond node test yes no =>
      obtain ⟨v, m₁, -, hrun⟩ := bind_eq_ok.1 hrun
      cases no with
      | none =>
        have hyes : yes.returns = false := hs
        split at hrun
        · exact ih hyes hrun
        · cases hrun
          rfl
      | some other =>
        obtain ⟨hyes, hno⟩ := Bool.or_eq_false_iff.1 hs
        split at hrun
        · exact ih hyes hrun
        · exact ih hno hrun
    | loop node test body =>
      have hbody : body.returns = false := hs
      exact repeatWhile_normal (ih hbody) hrun
    | ret node value => cases hs

end Normal

-- ======================================================== up to the call

/-- Whether there is a return in the statements of the task. -/
def Task.returns : Task → Bool
  | .execute s => s.returns
  | .executeAll ss => Stmt.anyReturns ss
  | .loop _ body _ => body.returns
  | _ => false

/-- The statements of the moment return with a value. -/
def Moment.Returns (setting : Setting) (t : Moment) (v : Value)
    (m : Machine) : Prop :=
  match t.task with
  | .execute s => execute setting t.room s t.machine = .ok (.returned v) m
  | .executeAll ss =>
      untilReturn (execute setting t.room) ss t.machine
        = .ok (.returned v) m
  | .loop test body rounds =>
      repeatWhile (return (← evaluate setting t.room test).truthy)
        (execute setting t.room body) rounds t.machine = .ok (.returned v) m
  | _ => False

/-- The test of a loop gives whether its value is truthy. -/
theorem holds_of_evaluate {setting : Setting} {room : Nat} {test : Expr}
    {m m' : Machine} {v : Value} {again : Bool}
    (htest : evaluate setting room test m = .ok v m')
    (htruthy : v.truthy = again) :
    (return (← evaluate setting room test).truthy : Run Bool) m
      = .ok again m' := by
  rw [bind_of_ok htest, htruthy]
  rfl

/-- A moment with a return in it was begun by one that has it too, and
ends with it, or by the call of a function, which ends with its value. -/
theorem Begins.returns {setting : Setting} {t t' : Moment}
    (h : Begins setting t t') (hreturns : t'.task.returns = true) :
    (t.task.returns = true ∧ ∀ v m, t'.Returns setting v m →
      ∃ env, t.Returns setting v { m with env }) ∨
    ∃ f args, t.task = .call (.function f) args ∧
      ∀ v m, t'.Returns setting v m →
        Lox.call setting t.room (.function f) args t.machine
          = .ok v { m with env := t.machine.env } := by
  cases h with
  | @body m room init f args harity =>
    refine .inr ⟨f, args, rfl, fun v m' hbody => ?_⟩
    have hcheck := checkArity_of_eq (m := m) harity
    let env := (m.store.newChild f.closure).1
    let store := m.store.grow.defineAll env (f.params.zip args)
    have hwithin : within env (untilReturn (execute setting room) f.body)
        { m with store } = .ok (.returned v) { m' with env := m.env } :=
      within_of_ok hbody
    unfold Lox.call
    exact (bind_of_ok hcheck).trans (bind_of_ok hwithin)
  | @block m room init node ss =>
    refine .inl ⟨hreturns, fun v m' hbody => ⟨m.env, ?_⟩⟩
    show execute setting (room + 1) (.block node ss) m = _
    unfold execute
    exact located_eq_ok.2 (within_of_ok hbody)
  | @yes m m₁ room init node test yes no v htest htruthy =>
    have hyes : yes.returns = true := hreturns
    refine .inl ⟨?_, fun v m' hrun => ⟨m'.env, ?_⟩⟩
    · cases no with
      | none => exact hyes
      | some other => exact Bool.or_eq_true_iff.2 (.inl hyes)
    · show execute setting (room + 1) (.cond node test yes no) m = _
      unfold execute
      refine located_eq_ok.2 ((bind_of_ok htest).trans ?_)
      simp only [htruthy, if_true]
      exact hrun
  | @no m m₁ room init node test yes no v htest htruthy =>
    refine .inl ⟨Bool.or_eq_true_iff.2 (.inr hreturns),
      fun v m' hrun => ⟨m'.env, ?_⟩⟩
    show execute setting (room + 1) (.cond node test yes (some no)) m = _
    unfold execute
    refine located_eq_ok.2 ((bind_of_ok htest).trans ?_)
    simp only [htruthy]
    exact hrun
  | @loop m room init node test body =>
    refine .inl ⟨hreturns, fun v m' hrun => ⟨m'.env, ?_⟩⟩
    show execute setting (room + 1) (.loop node test body) m = _
    unfold execute
    exact located_eq_ok.2 hrun
  | @loopBody m m₁ room rounds init test body v htest htruthy =>
    exact .inl ⟨hreturns, fun v m' hrun =>
      ⟨m'.env, (bind_of_ok (holds_of_evaluate htest htruthy)).trans
        (bind_of_ok hrun)⟩⟩
  | @again m m₁ m₂ room rounds init test body v htest htruthy hbody =>
    exact .inl ⟨hreturns, fun v m' hrun =>
      ⟨m'.env, ((bind_of_ok (holds_of_evaluate htest htruthy)).trans
        (bind_of_ok hbody)).trans hrun⟩⟩
  | firstStmt =>
    exact .inl ⟨Bool.or_eq_true_iff.2 (.inl hreturns),
      fun v m' hrun => ⟨m'.env, bind_of_ok hrun⟩⟩
  | moreStmts hs =>
    exact .inl ⟨Bool.or_eq_true_iff.2 (.inr hreturns),
      fun v m' hrun => ⟨m'.env, (bind_of_ok hs).trans hrun⟩⟩
  | _ => cases hreturns

/-- A return is taken at this moment by the call of another: nothing but
statements are between them, and when the return ends, so does the call,
with the same value and in the environment from before. -/
def Moment.TakenBy (setting : Setting) (t caller : Moment) : Prop :=
  ∃ f args, caller.task = .call (.function f) args ∧
    Reaches setting caller t ∧ ∀ v m, t.Returns setting v m →
      call setting caller.room (.function f) args caller.machine
        = .ok v { m with env := caller.machine.env }

/-- Unless it starts with one, a run comes to a return by a call that
takes it. -/
theorem Reaches.returns {setting : Setting} {start t : Moment}
    (hstart : start.task.returns = false) (h : Reaches setting start t)
    (hreturns : t.task.returns = true) :
    ∃ caller, Reaches setting start caller ∧
      t.TakenBy setting caller := by
  induction h with
  | refl =>
    rw [hstart] at hreturns
    cases hreturns
  | @tail t t' hreaches hbegins ih =>
    rcases hbegins.returns hreturns with
      ⟨hbefore, hback⟩ | ⟨f, args, htask, hcall⟩
    · obtain ⟨caller, hcaller, f, args, htask, hinside, hcall⟩ := ih hbefore
      refine ⟨caller, hcaller, f, args, htask, hinside.tail hbegins,
        fun v m hrun => ?_⟩
      obtain ⟨env, hrun⟩ := hback v m hrun
      exact hcall v { m with env } hrun
    · exact ⟨t, hreaches, f, args, htask, .single hbegins, hcall⟩

-- =============================================================== sessions

end Lox
