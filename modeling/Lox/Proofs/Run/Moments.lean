/-
The moments of a run. At each moment some part of the program is about
to be run on the machine as it is then. `Begins` says which part a part
begins next, and from which machine: its first part at once, and a later
one when those before it have ended in such a way that it is its turn.
The moments of a run are those that are reached from its start.

# Why these are all of them

A part looks a name up only in its own step, as a use of a variable or
as an assignment whose value is there. `sameRun_of_agrees` says that no
such step is missed: if two ways of finding a binding agree at all
moments of a run, the run is the same with the other.
-/
import Mathlib.Logic.Relation
import Lox.Session
import Lox.Proofs.Run.Laws

namespace Lox

-- =============================================================== moments

/-- What is about to be run. -/
inductive Task where
  | evaluate (e : Expr)
  /-- The arguments of a call that are left. -/
  | evaluateAll (es : List Expr)
  /-- An assignment whose value is there. -/
  | store (node : Node) (name : String) (v : Value)
  | call (f : Value) (args : List Value)
  /-- What a native is about to do, with what it has in hand. -/
  | perform (hand : List Value) (deed : Deed)
  | execute (s : Stmt)
  /-- The statements of a program, a block or a body that are left. -/
  | executeAll (ss : List Stmt)
  /-- The rounds of a loop that are left. -/
  | loop (test : Expr) (body : Stmt) (rounds : Nat)

/-- The values that a task has in hand. -/
def Task.hand : Task → List Value
  | .store _ _ v => [v]
  | .call f args => f :: args
  | .perform hand _ => hand
  | _ => []

/-- A moment of a run. -/
structure Moment where
  machine : Machine
  /-- The room that the task has. -/
  room : Nat
  /-- The local variable whose initializer the task is part of. -/
  initializing : Option String
  task : Task

/-- The variable that is local if the current environment is not that of
the globals. -/
def Machine.localVariable (m : Machine) (name : String) : Option String :=
  if m.atGlobals then none else some name

/-- The machine at the beginning of a block. -/
def Machine.inBlock (m : Machine) : Machine :=
  let (env, store) := m.store.newChild m.env
  { m with store, env }

/-- The machine at the beginning of the body of a function. -/
def Machine.inBody (m : Machine) (f : Function) (args : List Value) :
    Machine :=
  let (env, store) := m.store.newChild f.closure
  { m with store := store.defineAll env (f.params.zip args), env }

/-- The machine after a look at the clock. -/
def Machine.afterLook (m : Machine) : Machine :=
  { m with clock := m.clock.later }

/-- The machine after a line was printed. -/
def Machine.afterPrint (m : Machine) (line : String) : Machine :=
  { m with output := m.output ++ line ++ "\n" }

open Run

/-- The task of the first moment begins that of the second. -/
inductive Begins (setting : Setting) : Moment → Moment → Prop where
  | assigned {m : Machine} {room : Nat} {init : Option String} {node : Node}
      {name : String} {value : Expr} :
      Begins setting ⟨m, room + 1, init, .evaluate (.assign node name value)⟩
        ⟨m, room, init, .evaluate value⟩
  | store {m m' : Machine} {room : Nat} {init : Option String} {node : Node}
      {name : String} {value : Expr} {v : Value} :
      evaluate setting room value m = .ok v m' →
      Begins setting ⟨m, room + 1, init, .evaluate (.assign node name value)⟩
        ⟨m', room, init, .store node name v⟩
  | inner {m : Machine} {room : Nat} {init : Option String} {node : Node}
      {e : Expr} :
      Begins setting ⟨m, room + 1, init, .evaluate (.group node e)⟩
        ⟨m, room, init, .evaluate e⟩
  | operand {m : Machine} {room : Nat} {init : Option String} {node : Node}
      {op : UnaryOp} {e : Expr} :
      Begins setting ⟨m, room + 1, init, .evaluate (.unary node op e)⟩
        ⟨m, room, init, .evaluate e⟩
  | left {m : Machine} {room : Nat} {init : Option String} {node : Node}
      {op : BinaryOp} {a b : Expr} :
      Begins setting ⟨m, room + 1, init, .evaluate (.binary node op a b)⟩
        ⟨m, room, init, .evaluate a⟩
  | right {m m' : Machine} {room : Nat} {init : Option String} {node : Node}
      {op : BinaryOp} {a b : Expr} {v : Value} :
      evaluate setting room a m = .ok v m' →
      Begins setting ⟨m, room + 1, init, .evaluate (.binary node op a b)⟩
        ⟨m', room, init, .evaluate b⟩
  | first {m : Machine} {room : Nat} {init : Option String} {node : Node}
      {op : LogicalOp} {a b : Expr} :
      Begins setting ⟨m, room + 1, init, .evaluate (.logical node op a b)⟩
        ⟨m, room, init, .evaluate a⟩
  | second {m m' : Machine} {room : Nat} {init : Option String} {node : Node}
      {op : LogicalOp} {a b : Expr} {v : Value} :
      evaluate setting room a m = .ok v m' →
      op.decidedBy v = false →
      Begins setting ⟨m, room + 1, init, .evaluate (.logical node op a b)⟩
        ⟨m', room, init, .evaluate b⟩
  | callee {m : Machine} {room : Nat} {init : Option String} {node : Node}
      {argsId : Nat} {callee : Expr} {args : List Expr} :
      Begins setting
        ⟨m, room + 1, init, .evaluate (.call node argsId callee args)⟩
        ⟨m, room, init, .evaluate callee⟩
  | args {m m' : Machine} {room : Nat} {init : Option String} {node : Node}
      {argsId : Nat} {callee : Expr} {args : List Expr} {f : Value} :
      evaluate setting room callee m = .ok f m' →
      f.callable = true →
      Begins setting
        ⟨m, room + 1, init, .evaluate (.call node argsId callee args)⟩
        ⟨m', room, init, .evaluateAll args⟩
  | call {m m' m'' : Machine} {room : Nat} {init : Option String}
      {node : Node} {argsId : Nat} {callee : Expr} {args : List Expr}
      {f : Value} {values : List Value} :
      evaluate setting room callee m = .ok f m' →
      f.callable = true →
      each (evaluate setting room) args m' = .ok values m'' →
      Begins setting
        ⟨m, room + 1, init, .evaluate (.call node argsId callee args)⟩
        ⟨m'', room, none, .call f values⟩
  | firstArg {m : Machine} {room : Nat} {init : Option String} {e : Expr}
      {es : List Expr} :
      Begins setting ⟨m, room, init, .evaluateAll (e :: es)⟩
        ⟨m, room, init, .evaluate e⟩
  | moreArgs {m m' : Machine} {room : Nat} {init : Option String} {e : Expr}
      {es : List Expr} {v : Value} :
      evaluate setting room e m = .ok v m' →
      Begins setting ⟨m, room, init, .evaluateAll (e :: es)⟩
        ⟨m', room, init, .evaluateAll es⟩
  | body {m : Machine} {room : Nat} {init : Option String} {f : Function}
      {args : List Value} :
      args.length = f.params.length →
      Begins setting ⟨m, room + 1, init, .call (.function f) args⟩
        ⟨m.inBody f args, room, none, .executeAll f.body⟩
  | native {m : Machine} {room : Nat} {init : Option String} {f : Native}
      {args : List Value} :
      args.length = f.arity →
      Begins setting ⟨m, room + 1, init, .call (.native f) args⟩
        ⟨m, room, none, .perform args (f.action.deed (args.map Value.sight))⟩
  | looked {m : Machine} {room : Nat} {init : Option String}
      {hand : List Value} {next : Float → Deed} :
      Begins setting ⟨m, room, init, .perform hand (.look next)⟩
        ⟨m.afterLook, room, none, .perform hand (next m.clock.now)⟩
  | printed {m : Machine} {room : Nat} {init : Option String}
      {hand : List Value} {line : String} {next : Deed} :
      Begins setting ⟨m, room, init, .perform hand (.print line next)⟩
        ⟨m.afterPrint line, room, none, .perform hand next⟩
  | asked {m : Machine} {room : Nat} {init : Option String}
      {hand : List Value} {f : Handed} {args : List Handed}
      {next : Sight → Deed} :
      Begins setting ⟨m, room, init, .perform hand (.call f args next)⟩
        ⟨m, room, none, .call (f.value hand) (args.map (·.value hand))⟩
  | answered {m m' : Machine} {room : Nat} {init : Option String}
      {hand : List Value} {f : Handed} {args : List Handed}
      {next : Sight → Deed} {v : Value} :
      call setting room (f.value hand) (args.map (·.value hand)) m
        = .ok v m' →
      Begins setting ⟨m, room, init, .perform hand (.call f args next)⟩
        ⟨m', room, none, .perform (hand ++ [v]) (next v.sight)⟩
  | expr {m : Machine} {room : Nat} {init : Option String} {node : Node}
      {e : Expr} :
      Begins setting ⟨m, room + 1, init, .execute (.expr node e)⟩
        ⟨m, room, none, .evaluate e⟩
  | print {m : Machine} {room : Nat} {init : Option String} {node : Node}
      {e : Expr} :
      Begins setting ⟨m, room + 1, init, .execute (.print node e)⟩
        ⟨m, room, none, .evaluate e⟩
  | initializer {m : Machine} {room : Nat} {init : Option String}
      {node : Node} {name : Name} {e : Expr} :
      Begins setting
        ⟨m, room + 1, init, .execute (.varDecl node name (some e))⟩
        ⟨m, room, m.localVariable name.text, .evaluate e⟩
  | block {m : Machine} {room : Nat} {init : Option String} {node : Node}
      {ss : List Stmt} :
      Begins setting ⟨m, room + 1, init, .execute (.block node ss)⟩
        ⟨m.inBlock, room, none, .executeAll ss⟩
  | test {m : Machine} {room : Nat} {init : Option String} {node : Node}
      {e : Expr} {yes : Stmt} {no : Option Stmt} :
      Begins setting ⟨m, room + 1, init, .execute (.cond node e yes no)⟩
        ⟨m, room, none, .evaluate e⟩
  | yes {m m' : Machine} {room : Nat} {init : Option String} {node : Node}
      {e : Expr} {yes : Stmt} {no : Option Stmt} {v : Value} :
      evaluate setting room e m = .ok v m' →
      v.truthy = true →
      Begins setting ⟨m, room + 1, init, .execute (.cond node e yes no)⟩
        ⟨m', room, none, .execute yes⟩
  | no {m m' : Machine} {room : Nat} {init : Option String} {node : Node}
      {e : Expr} {yes no : Stmt} {v : Value} :
      evaluate setting room e m = .ok v m' →
      v.truthy = false →
      Begins setting
        ⟨m, room + 1, init, .execute (.cond node e yes (some no))⟩
        ⟨m', room, none, .execute no⟩
  | loop {m : Machine} {room : Nat} {init : Option String} {node : Node}
      {e : Expr} {body : Stmt} :
      Begins setting ⟨m, room + 1, init, .execute (.loop node e body)⟩
        ⟨m, room, none, .loop e body setting.rounds⟩
  | loopTest {m : Machine} {room rounds : Nat} {init : Option String}
      {e : Expr} {body : Stmt} :
      Begins setting ⟨m, room, init, .loop e body (rounds + 1)⟩
        ⟨m, room, none, .evaluate e⟩
  | loopBody {m m' : Machine} {room rounds : Nat} {init : Option String}
      {e : Expr} {body : Stmt} {v : Value} :
      evaluate setting room e m = .ok v m' →
      v.truthy = true →
      Begins setting ⟨m, room, init, .loop e body (rounds + 1)⟩
        ⟨m', room, none, .execute body⟩
  | again {m m' m'' : Machine} {room rounds : Nat} {init : Option String}
      {e : Expr} {body : Stmt} {v : Value} :
      evaluate setting room e m = .ok v m' →
      v.truthy = true →
      execute setting room body m' = .ok .normal m'' →
      Begins setting ⟨m, room, init, .loop e body (rounds + 1)⟩
        ⟨m'', room, none, .loop e body rounds⟩
  | ret {m : Machine} {room : Nat} {init : Option String} {node : Node}
      {e : Expr} :
      Begins setting ⟨m, room + 1, init, .execute (.ret node (some e))⟩
        ⟨m, room, none, .evaluate e⟩
  | firstStmt {m : Machine} {room : Nat} {init : Option String} {s : Stmt}
      {ss : List Stmt} :
      Begins setting ⟨m, room, init, .executeAll (s :: ss)⟩
        ⟨m, room, none, .execute s⟩
  | moreStmts {m m' : Machine} {room : Nat} {init : Option String} {s : Stmt}
      {ss : List Stmt} :
      execute setting room s m = .ok .normal m' →
      Begins setting ⟨m, room, init, .executeAll (s :: ss)⟩
        ⟨m', room, none, .executeAll ss⟩

/-- Whether the task of a moment begins nothing, whatever it meets. -/
def Moment.idle (t : Moment) : Bool :=
  match t.task, t.room with
  | .evaluate _, 0 | .call _ _, 0 | .execute _, 0 => true
  | .evaluate (.literal _ _), _ | .evaluate (.var _ _), _ => true
  | .evaluateAll [], _ | .store _ _ _, _ => true
  | .call f _, _ => !f.callable
  | .perform _ (.give _), _ => true
  | .execute (.varDecl _ _ none), _ | .execute (.funDecl ..), _ => true
  | .execute (.ret _ none), _ | .executeAll [], _ | .loop _ _ 0, _ => true
  | _, _ => false

/-- An idle moment begins nothing: an unfinished string of such moments ends
at it. -/
theorem not_begins_of_idle {setting : Setting} {t : Moment}
    (h : t.idle = true) (t' : Moment) : ¬ Begins setting t t' := by
  intro hbegins
  cases hbegins <;> cases h

/-- The moments that are reached from one of them. -/
abbrev Reaches (setting : Setting) : Moment → Moment → Prop :=
  Relation.ReflTransGen (Begins setting)

/-- The machine when the task has ended, however it ended. -/
def Moment.after (setting : Setting) (t : Moment) : Machine :=
  match t.task with
  | .evaluate e => finalMachine (evaluate setting t.room e) t.machine
  | .evaluateAll es =>
      finalMachine (each (evaluate setting t.room) es) t.machine
  | .store node name v =>
      finalMachine (writeName setting.access node.id name v) t.machine
  | .call f args => finalMachine (call setting t.room f args) t.machine
  | .perform hand deed =>
      finalMachine (perform readClock printLine (call setting t.room) hand deed)
        t.machine
  | .execute s => finalMachine (execute setting t.room s) t.machine
  | .executeAll ss =>
      finalMachine (untilReturn (execute setting t.room) ss) t.machine
  | .loop test body left =>
      finalMachine
        (repeatWhile (return (← evaluate setting t.room test).truthy)
          (execute setting t.room body) left) t.machine

-- ========================================================== completeness

section Agreement

variable (access access' : Access) (rounds : Nat)

/-- The two accesses find the same, if this is a moment to find
something. -/
def Moment.Agrees (t : Moment) : Prop :=
  ∀ node name,
    (t.task = .evaluate (.var node name) ∨ ∃ v, t.task = .store node name v) →
      access.find t.machine.store t.machine.env node.id name
        = access'.find t.machine.store t.machine.env node.id name

/-- The two accesses find the same at all moments from this one on. -/
def Moment.AllAgree (t : Moment) : Prop :=
  ∀ t', Reaches ⟨access, rounds⟩ t t' → t'.Agrees access access'

/-- The task runs alike with both accesses. -/
def Moment.SameRun (t : Moment) : Prop :=
  match t.task with
  | .evaluate e =>
      evaluate ⟨access, rounds⟩ t.room e t.machine
        = evaluate ⟨access', rounds⟩ t.room e t.machine
  | .evaluateAll es =>
      each (evaluate ⟨access, rounds⟩ t.room) es t.machine
        = each (evaluate ⟨access', rounds⟩ t.room) es t.machine
  | .store node name v =>
      writeName access node.id name v t.machine
        = writeName access' node.id name v t.machine
  | .call f args =>
      call ⟨access, rounds⟩ t.room f args t.machine
        = call ⟨access', rounds⟩ t.room f args t.machine
  | .perform hand deed =>
      perform readClock printLine (call ⟨access, rounds⟩ t.room) hand deed
          t.machine
        = perform readClock printLine (call ⟨access', rounds⟩ t.room) hand
          deed t.machine
  | .execute s =>
      execute ⟨access, rounds⟩ t.room s t.machine
        = execute ⟨access', rounds⟩ t.room s t.machine
  | .executeAll ss =>
      untilReturn (execute ⟨access, rounds⟩ t.room) ss t.machine
        = untilReturn (execute ⟨access', rounds⟩ t.room) ss t.machine
  | .loop test body left =>
      repeatWhile
          (return (← evaluate ⟨access, rounds⟩ t.room test).truthy)
          (execute ⟨access, rounds⟩ t.room body) left t.machine
        = repeatWhile
          (return (← evaluate ⟨access', rounds⟩ t.room test).truthy)
          (execute ⟨access', rounds⟩ t.room body) left t.machine

end Agreement

variable {access access' : Access} {rounds : Nat}

/-- Agreement from a moment on is agreement from any moment it begins. -/
theorem Moment.AllAgree.begins {t t' : Moment}
    (h : t.AllAgree access access' rounds)
    (hbegins : Begins ⟨access, rounds⟩ t t') :
    t'.AllAgree access access' rounds :=
  fun t'' hreaches => h t'' (.head hbegins hreaches)

/-- Two sequences come out alike at a machine if their first parts do there,
and their second parts do at the machine the first part leaves. Nothing is
asked about other machines. -/
theorem bind_congr_at {α β : Type} {run run' : Run α} {f f' : α → Run β}
    {m : Machine} (hrun : run m = run' m)
    (hf : ∀ a m', run m = .ok a m' → f a m' = f' a m') :
    (run >>= f) m = (run' >>= f') m := by
  rw [bind_apply, bind_apply, ← hrun]
  cases h : run m with
  | ok a m' => exact hf a m' h
  | error stop m' => rfl

theorem located_congr_at {α : Type} {node : Node} {run run' : Run α}
    {m : Machine} (h : run m = run' m) :
    located node run m = located node run' m := by
  unfold located
  rw [h]

theorem within_congr_at {α : Type} {env : Env} {run run' : Run α}
    {m : Machine} (h : run { m with env } = run' { m with env }) :
    within env run m = within env run' m := by
  unfold within
  rw [h]

/-- As many arguments as parameters change nothing. -/
theorem checkArity_eq_ok {expected : Nat} {args : List Value}
    {m m' : Machine} {u : Unit}
    (h : checkArity expected args m = .ok u m') :
    args.length = expected ∧ m' = m := by
  unfold checkArity at h
  split at h
  · next harity =>
    cases h
    exact ⟨harity, rfl⟩
  · cases h

/-- In this room, what the accesses agree on runs alike. -/
structure SameInRoom (access access' : Access) (rounds room : Nat) :
    Prop where
  evaluate : ∀ {m init e},
    Moment.AllAgree access access' rounds ⟨m, room, init, .evaluate e⟩ →
      evaluate ⟨access, rounds⟩ room e m
        = evaluate ⟨access', rounds⟩ room e m
  call : ∀ {m init f args},
    Moment.AllAgree access access' rounds ⟨m, room, init, .call f args⟩ →
      call ⟨access, rounds⟩ room f args m
        = call ⟨access', rounds⟩ room f args m
  execute : ∀ {m init s},
    Moment.AllAgree access access' rounds ⟨m, room, init, .execute s⟩ →
      execute ⟨access, rounds⟩ room s m
        = execute ⟨access', rounds⟩ room s m

section Room

variable {room : Nat} {m : Machine} {init : Option String}

/-- At a moment that evaluates a variable the two ways of reading it give one
answer, for that is what agreement at this very moment says. -/
theorem same_read {node : Node} {name : String}
    (h : Moment.AllAgree access access' rounds
      ⟨m, room, init, .evaluate (.var node name)⟩) :
    readName access node.id name m = readName access' node.id name m := by
  have hfind := h _ .refl node name (.inl rfl)
  show (ofExcept (access.find m.store m.env node.id name) >>= _) m
    = (ofExcept (access'.find m.store m.env node.id name) >>= _) m
  rw [hfind]

/-- At a moment that stores a value the two ways of writing come out alike. -/
theorem same_store {node : Node} {name : String} {v : Value}
    (h : Moment.AllAgree access access' rounds
      ⟨m, room, init, .store node name v⟩) :
    writeName access node.id name v m = writeName access' node.id name v m := by
  have hfind := h _ .refl node name (.inr ⟨v, rfl⟩)
  show (ofExcept (access.find m.store m.env node.id name) >>= _) m
    = (ofExcept (access'.find m.store m.env node.id name) >>= _) m
  rw [hfind]

variable (hsame : SameInRoom access access' rounds room)

include hsame

/-- By induction on the list: the first expression is a moment that the list
begins, and so is the rest of the list, at the machine the first leaves. -/
theorem SameInRoom.evaluateAll {es : List Expr}
    (h : Moment.AllAgree access access' rounds
      ⟨m, room, init, .evaluateAll es⟩) :
    each (Lox.evaluate ⟨access, rounds⟩ room) es m
      = each (Lox.evaluate ⟨access', rounds⟩ room) es m := by
  induction es generalizing m with
  | nil => rfl
  | cons e es ih =>
    refine bind_congr_at (hsame.evaluate (h.begins .firstArg))
      fun v m' hrun => ?_
    exact bind_congr_at (ih (h.begins (.moreArgs hrun))) fun _ _ _ => rfl

theorem SameInRoom.executeAll {ss : List Stmt}
    (h : Moment.AllAgree access access' rounds
      ⟨m, room, init, .executeAll ss⟩) :
    untilReturn (Lox.execute ⟨access, rounds⟩ room) ss m
      = untilReturn (Lox.execute ⟨access', rounds⟩ room) ss m := by
  induction ss generalizing m init with
  | nil => rfl
  | cons s ss ih =>
    refine bind_congr_at (hsame.execute (h.begins .firstStmt))
      fun completion m' hrun => ?_
    cases completion with
    | normal => exact ih (h.begins (.moreStmts hrun))
    | returned v => rfl

/-- By induction on the rounds left. -/
theorem SameInRoom.loop {test : Expr} {body : Stmt} {left : Nat}
    (h : Moment.AllAgree access access' rounds
      ⟨m, room, init, .loop test body left⟩) :
    repeatWhile
        (return (← Lox.evaluate ⟨access, rounds⟩ room test).truthy)
        (Lox.execute ⟨access, rounds⟩ room body) left m
      = repeatWhile
        (return (← Lox.evaluate ⟨access', rounds⟩ room test).truthy)
        (Lox.execute ⟨access', rounds⟩ room body) left m := by
  induction left generalizing m init with
  | zero => rfl
  | succ left ih =>
    unfold repeatWhile
    have htest := hsame.evaluate (h.begins .loopTest)
    refine bind_congr_at (bind_congr_at htest fun _ _ _ => rfl)
      fun again m' hrun => ?_
    -- The test has come to a value, and the loop goes by whether it is true.
    obtain ⟨v, m₁, hv, hpure⟩ := bind_eq_ok.1 hrun
    cases hpure
    cases htruthy : v.truthy with
    | false => rfl
    | true =>
      refine bind_congr_at (hsame.execute (h.begins (.loopBody hv htruthy)))
        fun completion m₂ hbody => ?_
      cases completion with
      | normal => exact ih (h.begins (.again hv htruthy hbody))
      | returned v => rfl

/-- What a native does is the same up to what it has called. -/
theorem SameInRoom.perform {hand : List Value} {deed : Deed}
    (h : Moment.AllAgree access access' rounds
      ⟨m, room, init, .perform hand deed⟩) :
    Run.perform readClock printLine (Lox.call ⟨access, rounds⟩ room) hand
        deed m
      = Run.perform readClock printLine (Lox.call ⟨access', rounds⟩ room)
        hand deed m := by
  induction deed generalizing m init hand with
  | give v => rfl
  | look next ih => exact ih _ (h.begins .looked)
  | print line next ih => exact ih (h.begins .printed)
  | call f args next ih =>
    refine bind_congr_at (hsame.call (h.begins .asked)) fun v m' hv => ?_
    exact ih v.sight (h.begins (.answered hv))

/-- One case per expression. Each part is a moment that the whole begins, so
agreement passes down to it and the smaller room does the rest. -/
theorem SameInRoom.evaluate_succ {e : Expr}
    (h : Moment.AllAgree access access' rounds
      ⟨m, room + 1, init, .evaluate e⟩) :
    Lox.evaluate ⟨access, rounds⟩ (room + 1) e m
      = Lox.evaluate ⟨access', rounds⟩ (room + 1) e m := by
  unfold Lox.evaluate
  refine located_congr_at ?_
  cases e with
  | literal node value => rfl
  | var node name => exact same_read h
  | assign node name value =>
    refine bind_congr_at (hsame.evaluate (h.begins .assigned))
      fun v m' hv => ?_
    exact bind_congr_at (same_store (h.begins (.store hv))) fun _ _ _ => rfl
  | group node inner => exact hsame.evaluate (h.begins .inner)
  | unary node op operand =>
    exact bind_congr_at (hsame.evaluate (h.begins .operand)) fun _ _ _ => rfl
  | binary node op left right =>
    refine bind_congr_at (hsame.evaluate (h.begins .left)) fun a m' ha => ?_
    exact bind_congr_at (hsame.evaluate (h.begins (.right ha))) fun _ _ _ => rfl
  | logical node op left right =>
    refine bind_congr_at (hsame.evaluate (h.begins .first)) fun a m' ha => ?_
    cases hdecided : op.decidedBy a with
    | true => rfl
    | false => exact hsame.evaluate (h.begins (.second ha hdecided))
  | call node argsId callee args =>
    refine bind_congr_at (hsame.evaluate (h.begins .callee)) fun f m' hf => ?_
    cases hcallable : f.callable with
    | false => rfl
    | true =>
      refine bind_congr_at (hsame.evaluateAll (h.begins (.args hf hcallable)))
        fun values m'' hvalues => ?_
      exact hsame.call (h.begins (.call hf hcallable hvalues))

/-- A call opens a new environment and runs the body in it, or hands the
arguments to a native that may call on. -/
theorem SameInRoom.call_succ {f : Value} {args : List Value}
    (h : Moment.AllAgree access access' rounds
      ⟨m, room + 1, init, .call f args⟩) :
    Lox.call ⟨access, rounds⟩ (room + 1) f args m
      = Lox.call ⟨access', rounds⟩ (room + 1) f args m := by
  unfold Lox.call
  cases f with
  | function f =>
    -- What precedes the body consults no access.
    refine bind_congr_at rfl fun _ m₁ hcheck => ?_
    obtain ⟨harity, rfl⟩ := checkArity_eq_ok hcheck
    refine bind_congr_at rfl fun env m₂ henter => ?_
    cases henter
    refine bind_congr_at rfl fun _ m₃ hdefine => ?_
    cases hdefine
    refine bind_congr_at (within_congr_at ?_) fun _ _ _ => rfl
    exact hsame.executeAll (h.begins (.body harity))
  | native f =>
    refine bind_congr_at rfl fun _ m₁ hcheck => ?_
    obtain ⟨harity, rfl⟩ := checkArity_eq_ok hcheck
    exact hsame.perform (h.begins (.native harity))
  | _ => rfl

/-- One case per statement, as for expressions. -/
theorem SameInRoom.execute_succ {s : Stmt}
    (h : Moment.AllAgree access access' rounds
      ⟨m, room + 1, init, .execute s⟩) :
    Lox.execute ⟨access, rounds⟩ (room + 1) s m
      = Lox.execute ⟨access', rounds⟩ (room + 1) s m := by
  unfold Lox.execute
  refine located_congr_at ?_
  cases s with
  | expr node value =>
    exact bind_congr_at (hsame.evaluate (h.begins .expr)) fun _ _ _ => rfl
  | print node value =>
    exact bind_congr_at (hsame.evaluate (h.begins .print)) fun _ _ _ => rfl
  | varDecl node name init =>
    cases init with
    | none => rfl
    | some e =>
      exact bind_congr_at (hsame.evaluate (h.begins .initializer))
        fun _ _ _ => rfl
  | funDecl => rfl
  | block node body =>
    refine bind_congr_at rfl fun env m₁ hcurrent => ?_
    cases hcurrent
    refine bind_congr_at rfl fun env m₂ henter => ?_
    cases henter
    exact within_congr_at (hsame.executeAll (h.begins .block))
  | cond node test yes no =>
    refine bind_congr_at (hsame.evaluate (h.begins .test)) fun v m' hv => ?_
    cases htruthy : v.truthy with
    | true => exact hsame.execute (h.begins (.yes hv htruthy))
    | false =>
      cases no with
      | none => rfl
      | some other => exact hsame.execute (h.begins (.no hv htruthy))
  | loop node test body => exact hsame.loop (h.begins .loop)
  | ret node value =>
    cases value with
    | none => rfl
    | some e =>
      exact bind_congr_at (hsame.evaluate (h.begins .ret)) fun _ _ _ => rfl

end Room

/-- In any room the two ways of finding a name come out alike, as long as they
agree at every moment that is reached. The induction is on the room. -/
theorem sameInRoom (access access' : Access) (rounds room : Nat) :
    SameInRoom access access' rounds room := by
  -- The induction is on the room: all that a task begins has less of it.
  induction room with
  | zero =>
    refine ⟨fun _ => ?_, fun _ => ?_, fun _ => ?_⟩
    · unfold evaluate
      rfl
    · unfold call
      rfl
    · unfold execute
      rfl
  | succ room ih => exact ⟨ih.evaluate_succ, ih.call_succ, ih.execute_succ⟩

/-- A task runs alike with two accesses that agree at all its moments. -/
theorem sameRun_of_agrees (t : Moment)
    (h : t.AllAgree access access' rounds) :
    t.SameRun access access' rounds := by
  have hsame := sameInRoom access access' rounds t.room
  obtain ⟨m, room, init, task⟩ := t
  cases task with
  | evaluate e => exact hsame.evaluate h
  | evaluateAll es => exact hsame.evaluateAll h
  | store node name v => exact same_store h
  | call f args => exact hsame.call h
  | perform hand deed => exact hsame.perform h
  | execute s => exact hsame.execute h
  | executeAll ss => exact hsame.executeAll h
  | loop test body left => exact hsame.loop h

/-- Then it leaves the same machine. -/
theorem Moment.SameRun.after {t : Moment}
    (h : t.SameRun access access' rounds) :
    t.after ⟨access, rounds⟩ = t.after ⟨access', rounds⟩ := by
  obtain ⟨m, room, init, task⟩ := t
  cases task <;> exact finalMachine_congr h

end Lox
