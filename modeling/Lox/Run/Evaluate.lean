/-
The meaning of programs. Expressions have values, statements have
effects and may return, and a call runs the body of a function in a new
environment inside the one of its declaration. Operands and arguments
are evaluated from left to right.

# Two bounds

Evaluation is by recursion on the room that is left for nested steps: an
expression, a statement or a call hands its parts one step less, and
with none left the run is interrupted by a stack overflow. A loop takes
no room; it has a bound of its own on its rounds, far beyond what any
run reaches.
-/
import Lox.Run.Machine
import Lox.Value.Operator

namespace Lox

/-- What evaluation is told from outside. -/
structure Setting where
  access : Access
  /-- The bound on the rounds of one loop. -/
  rounds : Nat

namespace Run

/-- The value of a use of a name. -/
def readName (access : Access) (id : Nat) (name : String) : Run Value := do
  let m ← get
  let (_, v) ← ofExcept (access.find m.store m.env id name)
  return v

/-- Gives the name of a use a new value. -/
def writeName (access : Access) (id : Nat) (name : String) (v : Value) :
    Run Unit := do
  let m ← get
  let (scope, _) ← ofExcept (access.find m.store m.env id name)
  modify fun m => { m with store := m.store.bind scope name v }

/-- Raises a fault unless there are as many arguments as parameters. -/
def checkArity {σ : Type} (expected : Nat) (args : List Value) :
    RunOn σ Unit :=
  if args.length = expected then pure ()
  else raise (.wrongArity expected args.length)

end Run

/-- Whether the left operand alone decides. -/
def LogicalOp.decidedBy : LogicalOp → Value → Bool
  | and, v => !v.truthy
  | or, v => v.truthy

open Run

mutual

/-- The value of an expression. -/
def evaluate (setting : Setting) : Nat → Expr → Run Value
  | 0, _ => throw .stackOverflow
  | room + 1, e => located e.node do
    match e with
    | .literal _ value => return value.value
    | .var node name => readName setting.access node.id name
    | .assign node name value =>
      let v ← evaluate setting room value
      writeName setting.access node.id name v
      return v
    | .group _ inner => evaluate setting room inner
    | .unary _ op operand =>
      let v ← evaluate setting room operand
      ofExcept (op.apply v)
    | .binary _ op left right =>
      let a ← evaluate setting room left
      let b ← evaluate setting room right
      ofExcept (op.apply a b)
    | .logical _ op left right =>
      let a ← evaluate setting room left
      if op.decidedBy a then return a else evaluate setting room right
    | .call _ _ callee args =>
      let f ← evaluate setting room callee
      if f.callable then
        let values ← each (evaluate setting room) args
        call setting room f values
      else
        raise (.notCallable f)

/-- The value of a call. -/
def call (setting : Setting) : Nat → Value → List Value → Run Value
  | 0, _, _ => throw .stackOverflow
  | room + 1, .function f, args => do
    checkArity f.params.length args
    let env ← enter f.closure
    defineAll env (f.params.zip args)
    let completion ←
      within env (untilReturn (execute setting room) f.body)
    return completion.value
  | room + 1, .native f, args => do
    checkArity f.arity args
    perform readClock printLine (call setting room) args
      (f.action.deed (args.map Value.sight))
  | _ + 1, v, _ => raise (.notCallable v)

/-- The effect of a statement. -/
def execute (setting : Setting) : Nat → Stmt → Run Completion
  | 0, _ => throw .stackOverflow
  | room + 1, s => located s.node do
    match s with
    | .expr _ value =>
      let _ ← evaluate setting room value
      return .normal
    | .print _ value =>
      let v ← evaluate setting room value
      printLine v.printed
      return .normal
    | .varDecl _ name init =>
      let v ← match init with
        | none => pure .nil
        | some e => evaluate setting room e
      define name.text v
      return .normal
    | .funDecl _ name _ params _ body =>
      let stamp ← freshStamp
      let closure ← current
      define name.text (.function
        ⟨stamp, name.text, params.map Name.text, body, closure⟩)
      return .normal
    | .block _ body =>
      let env ← enter (← current)
      within env (untilReturn (execute setting room) body)
    | .cond _ test yes no =>
      let v ← evaluate setting room test
      if v.truthy then
        execute setting room yes
      else
        match no with
        | none => return .normal
        | some other => execute setting room other
    | .loop _ test body =>
      repeatWhile (return (← evaluate setting room test).truthy)
        (execute setting room body) setting.rounds
    | .ret _ value =>
      match value with
      | none => return .returned .nil
      | some e => return .returned (← evaluate setting room e)

end

/-- The effect of a program: its statements in turn, none of which may
return. -/
def runProgram (setting : Setting) (room : Nat) (program : List Stmt) :
    Run Unit := do
  match ← untilReturn (execute setting room) program with
  | .normal => return ()
  | .returned v => throw (.strayReturn v)

end Lox
