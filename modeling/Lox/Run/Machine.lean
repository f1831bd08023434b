/-
The machine that a program runs on: the store, the environment that is
current, what was printed, and what is needed to make new functions and
to tell the time. A run changes the machine and ends with a result or an
interruption; what it changed before an interruption stays changed.

# Faults get their node once

A fault is raised without a node. Each node on the way out offers
itself, and the first to offer, which is the innermost, is taken.

# How a use finds its binding

The meaning of a use of a name is left open as an `Access`, so that one
evaluator serves several: `Access.byDepth` jumps as the survey of the
program says, `Access.byWalk` walks outwards from where the use runs.
-/
import Lox.Binding
import Lox.Environment

namespace Lox

-- ============================================================ the machine

/-- The state of a run. -/
structure Machine where
  store : Store
  /-- The current environment. -/
  env : Env
  /-- What was printed. -/
  output : String
  /-- The stamp that the next function gets. -/
  nextStamp : Nat
  clock : Clock

/-- Why a run ended without a result. -/
inductive Interruption where
  | fault (fault : RuntimeFault) (node : Option Node)
  /-- More nested steps than the machine has room for. -/
  | stackOverflow
  /-- More rounds of a loop than the machine goes. -/
  | unfinished
  /-- A return that no call was there to take. -/
  | strayReturn (value : Value)

/-- A run that changes a state of some kind. -/
abbrev RunOn (σ : Type) := EStateM Interruption σ

/-- A run. -/
abbrev Run := RunOn Machine

/-- How a statement ended: control goes on behind it, or returns from
the function. -/
inductive Completion where
  | normal
  | returned (value : Value)

/-- The value of a call whose body ended so. -/
def Completion.value : Completion → Value
  | normal => .nil
  | returned v => v

namespace Run

/-- Raises a fault. -/
def raise {σ α : Type} (fault : RuntimeFault) : RunOn σ α :=
  throw (.fault fault none)

/-- The result of an operation, or its fault. -/
def ofExcept {σ α : Type} : Except RuntimeFault α → RunOn σ α
  | .ok a => pure a
  | .error fault => raise fault

/-- Gives a fault without a node the node that met it. -/
def located {σ α : Type} (node : Node) (run : RunOn σ α) : RunOn σ α :=
  fun m =>
    match run m with
    | .error (.fault fault none) m => .error (.fault fault (some node)) m
    | outcome => outcome

/-- Runs in another environment; however the run ends, the current
environment is then the one before. -/
def within {α : Type} (env : Env) (run : Run α) : Run α := fun m =>
  match run { m with env } with
  | .ok a after => .ok a { after with env := m.env }
  | .error stop after => .error stop { after with env := m.env }

/-- The machine that a run ends with, however it ends. -/
def finalMachine {α : Type} (run : Run α) (m : Machine) : Machine :=
  match run m with
  | .ok _ after => after
  | .error _ after => after

theorem env_within {α : Type} (env : Env) (run : Run α) (m : Machine) :
    (finalMachine (within env run) m).env = m.env := by
  unfold finalMachine within
  rcases run { m with env } with ⟨_, _⟩ | ⟨_, _⟩ <;> rfl

theorem finalMachine_located {α : Type} (node : Node) (run : Run α)
    (m : Machine) :
    finalMachine (located node run) m = finalMachine run m := by
  unfold finalMachine located
  rcases run m with ⟨_, _⟩ | ⟨stop, _⟩
  · rfl
  · rcases stop with ⟨_, _ | _⟩ | _ | _ | _ <;> rfl

-- ============================================================== small steps

/-- The current environment. -/
def current : Run Env := return (← get).env

/-- A new environment inside a given one. -/
def enter (env : Env) : Run Env :=
  modifyGet fun m =>
    let (inner, store) := m.store.newChild env
    (inner, { m with store })

/-- Binds a name in the current environment. -/
def define (name : String) (v : Value) : Run Unit :=
  modify fun m => { m with store := m.store.define m.env name v }

/-- Binds names in an environment. -/
def defineAll (env : Env) (named : List (String × Value)) : Run Unit :=
  modify fun m => { m with store := m.store.defineAll env named }

/-- Prints a line. -/
def printLine (line : String) : Run Unit :=
  modify fun m => { m with output := m.output ++ line ++ "\n" }

/-- A stamp that no value has yet. -/
def freshStamp : Run Nat :=
  modifyGet fun m => (m.nextStamp, { m with nextStamp := m.nextStamp + 1 })

/-- The time. -/
def readClock : Run Float :=
  modifyGet fun m => (m.clock.now, { m with clock := m.clock.later })

-- ================================================================ sequences

/-- Runs for each thing in turn, and collects the results. -/
def each {σ α β : Type} (run : α → RunOn σ β) :
    List α → RunOn σ (List β)
  | [] => return []
  | a :: as => do
    let b ← run a
    let bs ← each run as
    return b :: bs

/-- Executes statements in turn until one returns. -/
def untilReturn (execute : Stmt → Run Completion) :
    List Stmt → Run Completion
  | [] => return .normal
  | s :: ss => do
    match ← execute s with
    | .normal => untilReturn execute ss
    | .returned v => return .returned v

/-- Executes a body as long as a test holds, for so many rounds at most,
and until it returns. -/
def repeatWhile {σ : Type} (test : RunOn σ Bool)
    (body : RunOn σ Completion) : Nat → RunOn σ Completion
  | 0 => throw .unfinished
  | rounds + 1 => do
    if ← test then
      match ← body with
      | .normal => repeatWhile test body rounds
      | .returned v => return .returned v
    else
      return .normal

-- ================================================================= natives

/-- Does what a native is about to do, with these values in hand, on a
state with a clock, an output and a way to call. -/
def perform {σ : Type} (look : RunOn σ Float) (print : String → RunOn σ Unit)
    (call : Value → List Value → RunOn σ Value) (hand : List Value) :
    Deed → RunOn σ Value
  | .give v => return v.value hand
  | .look next => do perform look print call hand (next (← look))
  | .print line next => do
    print line
    perform look print call hand next
  | .call f args next => do
    let v ← call (f.value hand) (args.map (·.value hand))
    perform look print call (hand ++ [v]) (next v.sight)

end Run

-- ================================================================= access

/-- How a use of a name finds its binding: given the store, the current
environment, the identity of the node and the name, the scope that binds
it and the value there. -/
structure Access where
  find : Store → Env → Nat → String → Except RuntimeFault (Nat × Value)

namespace Access

/-- A use with an entry in the table jumps so many scopes outwards; any
other goes to the globals. -/
def byDepth (depths : Depths) : Access where
  find store env id name :=
    match depths[id]? with
    | some depth => store.reachAt env depth name
    | none => store.reach .globals name

/-- Every use walks outwards from the current environment. -/
def byWalk : Access where
  find store env _ name := store.reach env name

end Access

end Lox
