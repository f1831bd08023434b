/-
Where interruptions come from. A part of a program that is interrupted
was interrupted at one of its moments, by the step of that moment and
not by anything that it began (`Moment.Raises`). A fault then has the
node of that step: no node further out, be it an operator around it, the
statement or the call of the function that the step is in, takes the
place of the one that is there.

A call is no node. What refuses it, the number of its arguments or the
thing that is called, is a fault of the node that calls, also where
natives stand between the node and the function that they call for it.
-/
import Lox.Proofs.Run.Moments

namespace Lox

open Run

-- ================================================================ raising

/-- Whether the task is one of the host: a native is called, or at work. -/
def Task.ofHost : Task → Bool
  | .call (.native _) _ | .perform _ _ => true
  | _ => false

/-- A call that is refused: this one, or one that natives have made for
it. No part of the program is refused anything here. -/
inductive Moment.Refuses (setting : Setting) :
    Moment → RuntimeFault → Prop where
  | parameters {m : Machine} {room : Nat} {init : Option String}
      {f : Function} {args : List Value} :
      args.length ≠ f.params.length →
      Refuses setting ⟨m, room + 1, init, .call (.function f) args⟩
        (.wrongArity f.params.length args.length)
  | arity {m : Machine} {room : Nat} {init : Option String} {f : Native}
      {args : List Value} :
      args.length ≠ f.arity →
      Refuses setting ⟨m, room + 1, init, .call (.native f) args⟩
        (.wrongArity f.arity args.length)
  | uncallable {m : Machine} {room : Nat} {init : Option String} {v : Value}
      {args : List Value} :
      v.callable = false →
      Refuses setting ⟨m, room + 1, init, .call v args⟩ (.notCallable v)
  | ofHost {t t' : Moment} {fault : RuntimeFault} :
      t.task.ofHost = true →
      Begins setting t t' →
      Refuses setting t' fault →
      Refuses setting t fault

/-- The own step of the moment is what interrupts the run. -/
inductive Moment.Raises (setting : Setting) :
    Moment → Interruption → Prop where
  | read {m : Machine} {room : Nat} {init : Option String} {node : Node}
      {name : String} {fault : RuntimeFault} :
      setting.access.find m.store m.env node.id name = .error fault →
      Raises setting ⟨m, room + 1, init, .evaluate (.var node name)⟩
        (.fault fault (some node))
  | write {m : Machine} {room : Nat} {init : Option String} {node : Node}
      {name : String} {v : Value} {fault : RuntimeFault} :
      setting.access.find m.store m.env node.id name = .error fault →
      Raises setting ⟨m, room, init, .store node name v⟩
        (.fault fault (some node))
  | unary {m m' : Machine} {room : Nat} {init : Option String} {node : Node}
      {op : UnaryOp} {e : Expr} {v : Value} {fault : RuntimeFault} :
      evaluate setting room e m = .ok v m' →
      op.apply v = .error fault →
      Raises setting ⟨m, room + 1, init, .evaluate (.unary node op e)⟩
        (.fault fault (some node))
  | binary {m m' m'' : Machine} {room : Nat} {init : Option String}
      {node : Node} {op : BinaryOp} {left right : Expr} {a b : Value}
      {fault : RuntimeFault} :
      evaluate setting room left m = .ok a m' →
      evaluate setting room right m' = .ok b m'' →
      op.apply a b = .error fault →
      Raises setting
        ⟨m, room + 1, init, .evaluate (.binary node op left right)⟩
        (.fault fault (some node))
  | uncallable {m m' : Machine} {room : Nat} {init : Option String}
      {node : Node} {argsId : Nat} {callee : Expr} {args : List Expr}
      {f : Value} :
      evaluate setting room callee m = .ok f m' →
      f.callable = false →
      Raises setting
        ⟨m, room + 1, init, .evaluate (.call node argsId callee args)⟩
        (.fault (.notCallable f) (some node))
  | refused {m m' m'' : Machine} {room : Nat} {init : Option String}
      {node : Node} {argsId : Nat} {callee : Expr} {args : List Expr}
      {f : Value} {values : List Value} {fault : RuntimeFault} :
      evaluate setting room callee m = .ok f m' →
      f.callable = true →
      each (evaluate setting room) args m' = .ok values m'' →
      Moment.Refuses setting ⟨m'', room, none, .call f values⟩ fault →
      Raises setting
        ⟨m, room + 1, init, .evaluate (.call node argsId callee args)⟩
        (.fault fault (some node))
  | overflow {m : Machine} {init : Option String} {task : Task} :
      Raises setting ⟨m, 0, init, task⟩ .stackOverflow
  | unfinished {m : Machine} {room : Nat} {init : Option String}
      {test : Expr} {body : Stmt} :
      Raises setting ⟨m, room, init, .loop test body 0⟩ .unfinished

/-- A moment reached from this one raises the interruption. -/
def Moment.Traces (setting : Setting) (t : Moment) (stop : Interruption) :
    Prop :=
  ∃ t', Reaches setting t t' ∧ t'.Raises setting stop

/-- The interruption is traced, or it is that a call is refused, which is
no fault of a node yet. -/
def Moment.Fails (setting : Setting) (t : Moment) (stop : Interruption) :
    Prop :=
  (∃ fault, stop = .fault fault none ∧ t.Refuses setting fault) ∨
    t.Traces setting stop

section Traces

variable {setting : Setting} {t t' : Moment} {stop : Interruption}

theorem Moment.Raises.traces (h : t.Raises setting stop) :
    t.Traces setting stop :=
  ⟨t, .refl, h⟩

/-- What is traced from a later moment is traced from an earlier. -/
theorem Moment.Traces.head (hbegins : Begins setting t t')
    (h : t'.Traces setting stop) : t.Traces setting stop := by
  obtain ⟨t'', hreaches, hraises⟩ := h
  exact ⟨t'', .head hbegins hreaches, hraises⟩

/-- How a call that a native makes fails, the native fails. -/
theorem Moment.Fails.head (hhost : t.task.ofHost = true)
    (hbegins : Begins setting t t') (h : t'.Fails setting stop) :
    t.Fails setting stop := by
  rcases h with ⟨fault, rfl, hrefuses⟩ | htraces
  · exact .inl ⟨fault, rfl, .ofHost hhost hbegins hrefuses⟩
  · exact .inr (htraces.head hbegins)

/-- No fault is raised without a node. -/
theorem Moment.Traces.node_ne_none {fault : RuntimeFault} :
    ¬ t.Traces setting (.fault fault none) := by
  rintro ⟨_, _, hraises⟩
  cases hraises

end Traces

-- ================================================================== laws

section Laws

variable {σ α β : Type} {s s' : σ} {stop : Interruption}

/-- A node takes the faults that have none, and no others. -/
theorem located_eq_error {node : Node} {run : RunOn σ α}
    (h : located node run s = .error stop s') :
    (run s = .error stop s' ∧ ∀ fault, stop ≠ .fault fault none) ∨
      ∃ fault, run s = .error (.fault fault none) s' ∧
        stop = .fault fault (some node) := by
  unfold located at h
  split at h
  · next fault s₁ hrun =>
    cases h
    exact .inr ⟨fault, hrun, rfl⟩
  · next hplaced =>
    refine .inl ⟨h, ?_⟩
    rintro fault rfl
    exact hplaced fault s' h

/-- An operator that fails fails without a place. The place is added by the
node that applies it. -/
theorem ofExcept_eq_error {outcome : Except RuntimeFault α}
    (h : ofExcept outcome s = .error stop s') :
    ∃ fault, outcome = .error fault ∧ stop = .fault fault none := by
  cases outcome with
  | ok a => cases h
  | error fault =>
    cases h
    exact ⟨fault, rfl, rfl⟩

theorem checkArity_eq_error {expected : Nat} {args : List Value}
    (h : checkArity expected args s = .error stop s') :
    args.length ≠ expected ∧
      stop = .fault (.wrongArity expected args.length) none := by
  unfold checkArity at h
  split at h
  · cases h
  · next harity =>
    cases h
    exact ⟨harity, rfl⟩

/-- A look-up that fails fails without a place, too. -/
theorem readName_eq_error {access : Access} {id : Nat} {name : String}
    {m m' : Machine} (h : readName access id name m = .error stop m') :
    ∃ fault, access.find m.store m.env id name = .error fault ∧
      stop = .fault fault none := by
  rw [readName_apply] at h
  split at h
  · cases h
  · next fault hfind =>
    cases h
    exact ⟨fault, hfind, rfl⟩

theorem writeName_eq_error {access : Access} {id : Nat} {name : String}
    {v : Value} {m m' : Machine}
    (h : writeName access id name v m = .error stop m') :
    ∃ fault, access.find m.store m.env id name = .error fault ∧
      stop = .fault fault none := by
  rw [writeName_apply] at h
  split at h
  · cases h
  · next fault hfind =>
    cases h
    exact ⟨fault, hfind, rfl⟩

end Laws

-- =============================================================== tracing

/-- In this room, whatever is interrupted was interrupted at one of its
moments. A call may also be refused. -/
structure TracedInRoom (setting : Setting) (room : Nat) : Prop where
  evaluate : ∀ {m m' init e stop},
    evaluate setting room e m = .error stop m' →
      Moment.Traces setting ⟨m, room, init, .evaluate e⟩ stop
  call : ∀ {m m' init f args stop},
    call setting room f args m = .error stop m' →
      Moment.Fails setting ⟨m, room, init, .call f args⟩ stop
  execute : ∀ {m m' init s stop},
    execute setting room s m = .error stop m' →
      Moment.Traces setting ⟨m, room, init, .execute s⟩ stop

section Room

variable {setting : Setting} {room : Nat} {m m' : Machine}
  {init : Option String} {stop : Interruption}

/-- A node that offers itself is the one that raised the fault, if there
was none before. -/
theorem traces_located {α : Type} {t : Moment} {node : Node} {run : Run α}
    (h : located node run m = .error stop m')
    (hrun : ∀ {stop'}, run m = .error stop' m' →
      t.Traces setting stop' ∨ ∃ fault, stop' = .fault fault none ∧
        t.Traces setting (.fault fault (some node))) :
    t.Traces setting stop := by
  rcases located_eq_error h with ⟨hstop, hplaced⟩ | ⟨fault, hstop, rfl⟩
  · rcases hrun hstop with htraces | ⟨fault, rfl, -⟩
    · exact htraces
    · exact absurd rfl (hplaced fault)
  · rcases hrun hstop with htraces | ⟨fault', heq, htraces⟩
    · exact absurd htraces Moment.Traces.node_ne_none
    · cases heq
      exact htraces

variable (htraced : TracedInRoom setting room)

include htraced

/-- A list of arguments fails at one of them, which is a moment the list
reaches. -/
theorem TracedInRoom.evaluateAll {es : List Expr}
    (h : each (Lox.evaluate setting room) es m = .error stop m') :
    Moment.Traces setting ⟨m, room, init, .evaluateAll es⟩ stop := by
  induction es generalizing m with
  | nil => cases h
  | cons e es ih =>
    rcases bind_eq_error.1 h with h | ⟨v, m₁, hv, h⟩
    · exact (htraced.evaluate h).head .firstArg
    rcases bind_eq_error.1 h with h | ⟨_, _, _, h⟩
    · exact (ih h).head (.moreArgs hv)
    · cases h

theorem TracedInRoom.executeAll {ss : List Stmt}
    (h : untilReturn (Lox.execute setting room) ss m = .error stop m') :
    Moment.Traces setting ⟨m, room, init, .executeAll ss⟩ stop := by
  induction ss generalizing m init with
  | nil => cases h
  | cons s ss ih =>
    rcases bind_eq_error.1 h with h | ⟨completion, m₁, hs, h⟩
    · exact (htraced.execute h).head .firstStmt
    cases completion with
    | normal => exact (ih h).head (.moreStmts hs)
    | returned v => cases h

theorem TracedInRoom.loop {test : Expr} {body : Stmt} {left : Nat}
    (h : repeatWhile (return (← Lox.evaluate setting room test).truthy)
      (Lox.execute setting room body) left m = .error stop m') :
    Moment.Traces setting ⟨m, room, init, .loop test body left⟩ stop := by
  induction left generalizing m init with
  | zero =>
    cases h
    exact Moment.Raises.unfinished.traces
  | succ left ih =>
    unfold repeatWhile at h
    -- The test is stopped, the body is, or a later round.
    rcases bind_eq_error.1 h with h | ⟨again, m₁, htest, h⟩
    · rcases bind_eq_error.1 h with h | ⟨_, _, _, h⟩
      · exact (htraced.evaluate h).head .loopTest
      · cases h
    obtain ⟨v, m₂, hv, hpure⟩ := bind_eq_ok.1 htest
    cases hpure
    cases htruthy : v.truthy with
    | false =>
      simp only [htruthy] at h
      cases h
    | true =>
      simp only [htruthy, if_true] at h
      rcases bind_eq_error.1 h with h | ⟨completion, m₃, hbody, h⟩
      · exact (htraced.execute h).head (.loopBody hv htruthy)
      cases completion with
      | normal => exact (ih h).head (.again hv htruthy hbody)
      | returned v => cases h

theorem TracedInRoom.evaluate_succ {e : Expr}
    (h : Lox.evaluate setting (room + 1) e m = .error stop m') :
    Moment.Traces setting ⟨m, room + 1, init, .evaluate e⟩ stop := by
  unfold Lox.evaluate at h
  refine traces_located h fun {stop'} h => ?_
  -- A fault is raised here, or in a part, where it has been located already.
  cases e with
  | literal node value => cases h
  | var node name =>
    obtain ⟨fault, hfind, rfl⟩ := readName_eq_error h
    exact .inr ⟨fault, rfl, (Moment.Raises.read hfind).traces⟩
  | assign node name value =>
    rcases bind_eq_error.1 h with h | ⟨v, m₁, hv, h⟩
    · exact .inl ((htraced.evaluate h).head .assigned)
    rcases bind_eq_error.1 h with h | ⟨_, _, _, h⟩
    · obtain ⟨fault, hfind, rfl⟩ := writeName_eq_error h
      exact .inr ⟨fault, rfl,
        (Moment.Raises.write hfind).traces.head (.store hv)⟩
    · cases h
  | group node inner => exact .inl ((htraced.evaluate h).head .inner)
  | unary node op operand =>
    rcases bind_eq_error.1 h with h | ⟨v, m₁, hv, h⟩
    · exact .inl ((htraced.evaluate h).head .operand)
    · obtain ⟨fault, happly, rfl⟩ := ofExcept_eq_error h
      exact .inr ⟨fault, rfl, (Moment.Raises.unary hv happly).traces⟩
  | binary node op left right =>
    rcases bind_eq_error.1 h with h | ⟨a, m₁, ha, h⟩
    · exact .inl ((htraced.evaluate h).head .left)
    rcases bind_eq_error.1 h with h | ⟨b, m₂, hb, h⟩
    · exact .inl ((htraced.evaluate h).head (.right ha))
    · obtain ⟨fault, happly, rfl⟩ := ofExcept_eq_error h
      exact .inr ⟨fault, rfl, (Moment.Raises.binary ha hb happly).traces⟩
  | logical node op left right =>
    rcases bind_eq_error.1 h with h | ⟨a, m₁, ha, h⟩
    · exact .inl ((htraced.evaluate h).head .first)
    cases hdecided : op.decidedBy a with
    | true =>
      simp only [hdecided, if_true] at h
      cases h
    | false =>
      simp only [hdecided] at h
      exact .inl ((htraced.evaluate h).head (.second ha hdecided))
  | call node argsId callee args =>
    rcases bind_eq_error.1 h with h | ⟨f, m₁, hf, h⟩
    · exact .inl ((htraced.evaluate h).head .callee)
    cases hcallable : f.callable with
    | false =>
      simp only [hcallable] at h
      cases h
      exact .inr ⟨_, rfl, (Moment.Raises.uncallable hf hcallable).traces⟩
    | true =>
      simp only [hcallable, if_true] at h
      rcases bind_eq_error.1 h with h | ⟨values, m₂, hvalues, h⟩
      · exact .inl ((htraced.evaluateAll h).head (.args hf hcallable))
      rcases htraced.call h with ⟨fault, rfl, hrefuses⟩ | htraces
      · exact .inr ⟨fault, rfl,
          (Moment.Raises.refused hf hcallable hvalues hrefuses).traces⟩
      · exact .inl (htraces.head (.call hf hcallable hvalues))

/-- A native fails by what it has called. -/
theorem TracedInRoom.perform {hand : List Value} {deed : Deed}
    (h : Run.perform readClock printLine (Lox.call setting room) hand deed m
      = .error stop m') :
    Moment.Fails setting ⟨m, room, init, .perform hand deed⟩ stop := by
  induction deed generalizing m init hand with
  | give v => cases h
  | look next ih => exact (ih _ h).head rfl .looked
  | print line next ih => exact (ih h).head rfl .printed
  | call f args next ih =>
    rcases bind_eq_error.1 h with h | ⟨v, m₁, hv, h⟩
    · exact (htraced.call h).head rfl .asked
    · exact (ih v.sight h).head rfl (.answered hv)

/-- A call fails at its own checks or inside the body or the native it
runs. -/
theorem TracedInRoom.call_succ {f : Value} {args : List Value}
    (h : Lox.call setting (room + 1) f args m = .error stop m') :
    Moment.Fails setting ⟨m, room + 1, init, .call f args⟩ stop := by
  unfold Lox.call at h
  cases f with
  | function f =>
    rcases bind_eq_error.1 h with h | ⟨_, m₁, hcheck, hbody⟩
    · obtain ⟨harity, rfl⟩ := checkArity_eq_error h
      exact .inl ⟨_, rfl, .parameters harity⟩
    -- Behind the check only the body can be stopped.
    obtain ⟨harity, rfl⟩ := checkArity_eq_ok hcheck
    rcases bind_eq_error.1 hbody with h | ⟨env, m₂, henter, hbody⟩
    · cases h
    cases henter
    rcases bind_eq_error.1 hbody with h | ⟨_, m₃, hdefine, hbody⟩
    · cases h
    cases hdefine
    rcases bind_eq_error.1 hbody with hbody | ⟨_, _, _, h⟩
    · obtain ⟨m₄, hbody, -⟩ := within_eq_error hbody
      exact .inr ((htraced.executeAll hbody).head (.body harity))
    · cases h
  | native f =>
    rcases bind_eq_error.1 h with h | ⟨_, m₁, hcheck, hdeed⟩
    · obtain ⟨harity, rfl⟩ := checkArity_eq_error h
      exact .inl ⟨_, rfl, .arity harity⟩
    obtain ⟨harity, rfl⟩ := checkArity_eq_ok hcheck
    exact (htraced.perform hdeed).head rfl (.native harity)
  | _ =>
    cases h
    exact .inl ⟨_, rfl, .uncallable rfl⟩

theorem TracedInRoom.execute_succ {s : Stmt}
    (h : Lox.execute setting (room + 1) s m = .error stop m') :
    Moment.Traces setting ⟨m, room + 1, init, .execute s⟩ stop := by
  unfold Lox.execute at h
  refine traces_located h fun {stop'} h => .inl ?_
  -- A statement raises nothing of its own.
  cases s with
  | expr node value | print node value =>
    rcases bind_eq_error.1 h with h | ⟨_, _, _, h⟩
    · exact (htraced.evaluate h).head (by constructor)
    · cases h
  | varDecl node name init =>
    cases init with
    | none => cases h
    | some e =>
      rcases bind_eq_error.1 h with h | ⟨_, _, _, h⟩
      · exact (htraced.evaluate h).head .initializer
      · cases h
  | funDecl => cases h
  | block node body =>
    rcases bind_eq_error.1 h with h | ⟨env, m₁, hcurrent, h⟩
    · cases h
    cases hcurrent
    rcases bind_eq_error.1 h with h | ⟨env, m₂, henter, h⟩
    · cases h
    cases henter
    obtain ⟨m₃, h, -⟩ := within_eq_error h
    exact (htraced.executeAll h).head .block
  | cond node test yes no =>
    rcases bind_eq_error.1 h with h | ⟨v, m₁, hv, h⟩
    · exact (htraced.evaluate h).head .test
    cases htruthy : v.truthy with
    | true =>
      simp only [htruthy, if_true] at h
      exact (htraced.execute h).head (.yes hv htruthy)
    | false =>
      simp only [htruthy] at h
      cases no with
      | none => cases h
      | some other => exact (htraced.execute h).head (.no hv htruthy)
  | loop node test body => exact (htraced.loop h).head .loop
  | ret node value =>
    cases value with
    | none => cases h
    | some e =>
      rcases bind_eq_error.1 h with h | ⟨_, _, _, h⟩
      · exact (htraced.evaluate h).head .ret
      · cases h

end Room

/-- In any room, a run that fails has a moment it reaches at which the failure
is raised. The induction is on the room. -/
theorem tracedInRoom (setting : Setting) (room : Nat) :
    TracedInRoom setting room := by
  induction room with
  | zero =>
    refine ⟨fun h => ?_, fun h => .inr ?_, fun h => ?_⟩
    · unfold evaluate at h
      cases h
      exact Moment.Raises.overflow.traces
    · unfold call at h
      cases h
      exact Moment.Raises.overflow.traces
    · unfold execute at h
      cases h
      exact Moment.Raises.overflow.traces
  | succ room ih => exact ⟨ih.evaluate_succ, ih.call_succ, ih.execute_succ⟩

/-- A program that is interrupted was so at one of its moments, unless a
return was left over. -/
theorem interrupted_program {setting : Setting} {room : Nat}
    {m m' : Machine} {program : List Stmt} {stop : Interruption}
    (h : runProgram setting room program m = .error stop m') :
    Moment.Traces setting ⟨m, room, none, .executeAll program⟩ stop ∨
      ∃ v m₁, stop = .strayReturn v ∧
        untilReturn (execute setting room) program m
          = .ok (.returned v) m₁ := by
  rcases bind_eq_error.1 h with h | ⟨completion, m₁, hrun, h⟩
  · exact .inl ((tracedInRoom setting room).executeAll h)
  · cases completion with
    | normal => cases h
    | returned v =>
      cases h
      exact .inr ⟨v, _, rfl, hrun⟩

end Lox
