/-
The environment that is current when something has run is the one that
was current before, however the run ended. Few steps change it at all:
a block and the body of a function run in an environment of their own,
and what puts the one before back is the same for both (`Run.within`).
Everything else is put together from runs that leave the environment as
it was, and a run that is cut short in its first part is no exception
to that (`Restores.bind`).

So a fault that passes through blocks, loops and calls on its way out
needs no invariant of what is on the way: each part on its own ends where
it began.
-/
import Lox.Proofs.Run.Moments

namespace Lox

namespace Run

-- ================================================================ restoring

/-- However the run ends, the current environment is then the one
before. -/
def Restores {α : Type} (run : Run α) : Prop :=
  ∀ m, (finalMachine run m).env = m.env

namespace Restores

variable {α β : Type} {run : Run α} {f : α → Run β}

/-- So it is after a run with a result. -/
theorem of_ok (h : Restores run) {m m' : Machine} {a : α}
    (hrun : run m = .ok a m') : m'.env = m.env := by
  rw [← finalMachine_of_ok hrun]
  exact h m

/-- A result that is there at once changes nothing. -/
theorem pure (a : α) : Restores (Pure.pure a) := fun _ => rfl

/-- Nor does an interruption. -/
theorem throw (stop : Interruption) :
    Restores (MonadExcept.throw stop : Run α) :=
  fun _ => rfl

theorem get : Restores MonadState.get := fun _ => rfl

/-- To make an environment is not yet to run in it. -/
theorem enter (env : Env) : Restores (enter env) := fun _ => rfl

/-- A declaration binds a name in the current environment and leaves it the
current one. -/
theorem define (name : String) (v : Value) : Restores (define name v) :=
  fun _ => rfl

/-- The same for parameters. -/
theorem defineAll (env : Env) (named : List (String × Value)) :
    Restores (defineAll env named) := fun _ => rfl

/-- To print changes the output alone. -/
theorem printLine (line : String) : Restores (printLine line) := fun _ => rfl

/-- To make a function takes a stamp. -/
theorem freshStamp : Restores freshStamp := fun _ => rfl

/-- To look at the clock moves the clock on. -/
theorem readClock : Restores readClock := fun _ => rfl

/-- Two runs one behind the other. If the first is interrupted, the second has
nothing to restore. -/
theorem bind (h : Restores run) (hf : ∀ a, Restores (f a)) :
    Restores (run >>= f) := by
  intro m
  have hfirst := h m
  unfold finalMachine at hfirst ⊢
  rw [bind_apply]
  cases hrun : run m with
  | error stop m' =>
    rw [hrun] at hfirst
    exact hfirst
  | ok a m' =>
    rw [hrun] at hfirst
    exact (hf a m').trans hfirst

theorem current : Restores current := .bind .get fun _ => .pure _

/-- The node that a fault gets changes nothing. -/
theorem located {node : Node} (h : Restores run) :
    Restores (located node run) := fun m => by
  rw [finalMachine_located]
  exact h m

/-- What runs in another environment restores the one before by its own doing,
whatever it runs. -/
theorem within (env : Env) (run : Run α) : Restores (within env run) :=
  env_within env run

/-- An operation, or its fault, does nothing to the machine. -/
theorem ofExcept (outcome : Except RuntimeFault α) :
    Restores (ofExcept outcome) := by
  cases outcome with
  | ok a => exact .pure a
  | error fault => exact .throw _

/-- To read a variable changes nothing. -/
theorem readName (access : Access) (id : Nat) (name : String) :
    Restores (readName access id name) :=
  .bind .get fun _ => .bind (.ofExcept _) fun _ => .pure _

/-- To assign one changes a scope, and not which environment is current. -/
theorem writeName (access : Access) (id : Nat) (name : String) (v : Value) :
    Restores (writeName access id name v) :=
  .bind .get fun _ => .bind (.ofExcept _) fun _ _ => rfl

/-- To count arguments changes nothing. -/
theorem checkArity (expected : Nat) (args : List Value) :
    Restores (checkArity expected args) := by
  unfold Run.checkArity
  split
  · exact .pure ()
  · exact .throw _

-- =============================================================== sequences

/-- Runs that restore the environment one by one restore it in turn. -/
theorem each {run : α → Run β} (h : ∀ a, Restores (run a)) (as : List α) :
    Restores (each run as) := by
  induction as with
  | nil => exact .pure _
  | cons a as ih => exact .bind (h a) fun _ => .bind ih fun _ => .pure _

/-- So do statements, also where one returns before the last. -/
theorem untilReturn {execute : Stmt → Run Completion}
    (h : ∀ s, Restores (execute s)) (ss : List Stmt) :
    Restores (untilReturn execute ss) := by
  induction ss with
  | nil => exact .pure _
  | cons s ss ih =>
    refine .bind (h s) fun completion => ?_
    cases completion with
    | normal => exact ih
    | returned v => exact .pure _

/-- So do the rounds of a loop, however many there are. -/
theorem repeatWhile {test : Run Bool} {body : Run Completion}
    (htest : Restores test) (hbody : Restores body) (rounds : Nat) :
    Restores (repeatWhile test body rounds) := by
  induction rounds with
  | zero => exact .throw _
  | succ rounds ih =>
    refine .bind htest fun again => ?_
    cases again with
    | false => exact .pure _
    | true =>
      refine .bind hbody fun completion => ?_
      cases completion with
      | normal => exact ih
      | returned v => exact .pure _

/-- A native changes the environment no more than what it calls does. -/
theorem perform {look : Run Float} {print : String → Run Unit}
    {call : Value → List Value → Run Value} (hlook : Restores look)
    (hprint : ∀ line, Restores (print line))
    (hcall : ∀ f args, Restores (call f args)) (hand : List Value)
    (deed : Deed) : Restores (perform look print call hand deed) := by
  induction deed generalizing hand with
  | give v => exact .pure _
  | look next ih => exact .bind hlook fun now => ih now hand
  | print line next ih => exact .bind (hprint line) fun _ => ih hand
  | call f args next ih =>
    exact .bind (hcall _ _) fun v => ih v.sight (hand ++ [v])

end Restores

end Run

open Run

-- ================================================================= one room

/-- In this room, whatever runs restores the environment. -/
structure RestoresInRoom (setting : Setting) (room : Nat) : Prop where
  evaluate : ∀ e, Restores (evaluate setting room e)
  call : ∀ f args, Restores (call setting room f args)
  execute : ∀ s, Restores (execute setting room s)

namespace RestoresInRoom

variable {setting : Setting} {room : Nat}
  (hroom : RestoresInRoom setting room)

include hroom

/-- An expression is put together from runs that restore the environment. The
body of a function runs in another one, and within that. -/
theorem evaluate_succ (e : Expr) :
    Restores (Lox.evaluate setting (room + 1) e) := by
  unfold Lox.evaluate
  refine .located ?_
  cases e with
  | literal node value => exact .pure _
  | var node name => exact .readName _ _ _
  | assign node name value =>
    refine .bind (hroom.evaluate value) fun v => ?_
    exact .bind (.writeName _ _ _ v) fun _ => .pure v
  | group node inner => exact hroom.evaluate inner
  | unary node op operand =>
    exact .bind (hroom.evaluate operand) fun _ => .ofExcept _
  | binary node op left right =>
    refine .bind (hroom.evaluate left) fun _ => ?_
    exact .bind (hroom.evaluate right) fun _ => .ofExcept _
  | logical node op left right =>
    refine .bind (hroom.evaluate left) fun a => ?_
    cases op.decidedBy a with
    | true => exact .pure a
    | false => exact hroom.evaluate right
  | call node argsId callee args =>
    refine .bind (hroom.evaluate callee) fun f => ?_
    cases f.callable with
    | false => exact .throw _
    | true => exact .bind (.each hroom.evaluate args) (hroom.call f)

/-- The body of a function runs in an environment inside that of its
declaration; a native has none. -/
theorem call_succ (f : Value) (args : List Value) :
    Restores (Lox.call setting (room + 1) f args) := by
  unfold Lox.call
  cases f with
  | function f =>
    refine .bind (.checkArity _ args) fun _ => ?_
    refine .bind (.enter f.closure) fun env => ?_
    refine .bind (.defineAll env _) fun _ => ?_
    exact .bind (.within env _) fun _ => .pure _
  | native f =>
    refine .bind (.checkArity _ args) fun _ => ?_
    exact .perform .readClock .printLine hroom.call args _
  | _ => exact .throw _

/-- So is a statement. A block runs in another environment, and within
that. -/
theorem execute_succ (s : Stmt) :
    Restores (Lox.execute setting (room + 1) s) := by
  unfold Lox.execute
  refine .located ?_
  cases s with
  | expr node value => exact .bind (hroom.evaluate value) fun _ => .pure _
  | print node value =>
    refine .bind (hroom.evaluate value) fun _ => ?_
    exact .bind (.printLine _) fun _ => .pure _
  | varDecl node name init =>
    have hdefine : ∀ v, Restores (define name.text v >>= fun _ =>
        Pure.pure Completion.normal) :=
      fun v => .bind (.define name.text v) fun _ => .pure _
    cases init with
    | none => exact hdefine .nil
    | some e => exact .bind (hroom.evaluate e) hdefine
  | funDecl node name paramsId params bodyNode body =>
    refine .bind .freshStamp fun stamp => .bind .current fun closure => ?_
    exact .bind (.define name.text _) fun _ => .pure _
  | block node body =>
    refine .bind .current fun env => ?_
    exact .bind (.enter env) fun inner => .within inner _
  | cond node test yes no =>
    refine .bind (hroom.evaluate test) fun v => ?_
    cases v.truthy with
    | true => exact hroom.execute yes
    | false =>
      cases no with
      | none => exact .pure _
      | some other => exact hroom.execute other
  | loop node test body =>
    exact .repeatWhile (.bind (hroom.evaluate test) fun _ => .pure _)
      (hroom.execute body) setting.rounds
  | ret node value =>
    cases value with
    | none => exact .pure _
    | some e => exact .bind (hroom.evaluate e) fun _ => .pure _

end RestoresInRoom

/-- Whatever runs restores the environment, by induction on the room. -/
theorem restoresInRoom (setting : Setting) (room : Nat) :
    RestoresInRoom setting room := by
  induction room with
  | zero =>
    refine ⟨fun e => ?_, fun f args => ?_, fun s => ?_⟩
    · unfold evaluate
      exact .throw _
    · unfold call
      exact .throw _
    · unfold execute
      exact .throw _
  | succ room ih => exact ⟨ih.evaluate_succ, ih.call_succ, ih.execute_succ⟩

/-- However the task of a moment ends, the current environment is then
the one at the moment. -/
theorem Moment.after_env (setting : Setting) (t : Moment) :
    (t.after setting).env = t.machine.env := by
  obtain ⟨m, room, pending, task⟩ := t
  have hroom := restoresInRoom setting room
  cases task with
  | evaluate e => exact hroom.evaluate e m
  | evaluateAll es => exact Restores.each hroom.evaluate es m
  | store node name v => exact Restores.writeName _ _ _ v m
  | call f args => exact hroom.call f args m
  | perform hand deed =>
    exact Restores.perform .readClock .printLine hroom.call hand deed m
  | execute s => exact hroom.execute s m
  | executeAll ss => exact Restores.untilReturn hroom.execute ss m
  | loop test body left =>
    exact Restores.repeatWhile
      (.bind (hroom.evaluate test) fun _ => .pure _) (hroom.execute body) left
      m

-- ================================================================ programs

/-- However a program ends, the current environment is then the one
before. -/
theorem runProgram_restores (setting : Setting) (room : Nat)
    (program : List Stmt) : Restores (runProgram setting room program) := by
  refine .bind (.untilReturn (restoresInRoom setting room).execute program)
    fun completion => ?_
  cases completion with
  | normal => exact .pure ()
  | returned v => exact .throw _

/-- What a program leaves of the machine is what its run ends with, also when
it is interrupted. -/
theorem Machine.interpret_fst (m : Machine) (depths : Depths)
    (program : List Stmt) :
    (m.interpret depths program).1
      = finalMachine (runProgram ⟨.byDepth depths, roundBound⟩ nestingRoom
          program) m := by
  unfold interpret finalMachine
  split <;> next h => simp only [h]

/-- Behind a program the environment is the one before. -/
theorem Machine.interpret_env (m : Machine) (depths : Depths)
    (program : List Stmt) : (m.interpret depths program).1.env = m.env := by
  rw [interpret_fst]
  exact runProgram_restores _ _ program m

/-- A machine before its first unit is at the globals. -/
theorem Machine.initial_env (clock : Clock) (natives : List NativeSpec) :
    (initial clock natives).env = .globals := by
  have hinstall : ∀ (specs : List NativeSpec) (m : Machine),
      (specs.foldl install m).env = m.env := by
    intro specs
    induction specs with
    | nil => exact fun _ => rfl
    | cons spec specs ih => exact fun m => ih (m.install spec)
  exact hinstall _ _

/-- The same without a session. -/
theorem runAlone_env (m : Machine) (bound : Bool) (source : String) :
    (runAlone m bound source).1.env = m.env := by
  unfold runAlone
  split
  · rfl
  · split
    · rfl
    · exact Machine.interpret_env ..

/-- A session rests at the globals from unit to unit. -/
theorem Session.run_env {s : Session} (h : s.machine.env = .globals)
    (source : String) : (s.run source).1.machine.env = .globals := by
  unfold Session.run
  rcases readProgram source s.nextId with ⟨_ | program, n⟩
  · exact h
  · rcases hbind : bindProgram program with _ | uses
    · simpa only [hbind] using h
    · simp only [hbind]
      rfl

/-- Behind any units of a session the current environment is that of the
globals, whether they failed or not. -/
theorem Session.runAll_env (sources : List String) {s : Session}
    (h : s.machine.env = .globals) :
    (s.runAll sources).1.machine.env = .globals := by
  induction sources generalizing s with
  | nil => exact h
  | cons source sources ih => exact ih (Session.run_env h source)

/-- Whatever is evaluated, executed or called, with any way to find the
bindings and on any machine, ends in the environment that it began in:
with a result, with a return and when it is interrupted. So a program
that begins at the globals ends at the globals, on a machine of its own
and as the next of any units of a session, which does not yet rest
then. -/
theorem environment_restored :
    (∀ (setting : Setting) (room : Nat) (m : Machine),
      (∀ e, (finalMachine (evaluate setting room e) m).env = m.env) ∧
      (∀ s, (finalMachine (execute setting room s) m).env = m.env) ∧
      (∀ f args, (finalMachine (call setting room f args) m).env = m.env)) ∧
    (∀ m depths program, (Machine.interpret m depths program).1.env = m.env) ∧
    (∀ clock natives bound source,
      (runAlone (.initial clock natives) bound source).1.env = .globals) ∧
    (∀ clock natives sources depths program,
      (((Session.start clock natives).runAll sources).1.machine.interpret
        depths program).1.env = .globals) := by
  refine ⟨fun setting room m => ?_, Machine.interpret_env, ?_, ?_⟩
  · have hroom := restoresInRoom setting room
    exact ⟨fun e => hroom.evaluate e m, fun s => hroom.execute s m,
      fun f args => hroom.call f args m⟩
  · intro clock natives bound source
    rw [runAlone_env, Machine.initial_env]
  · intro clock natives sources depths program
    rw [Machine.interpret_env]
    exact Session.runAll_env sources (Machine.initial_env clock natives)

end Lox
