/-
Static scoping as it is meant. Here no environment is made, none is
walked through and no depth is looked up. Every execution of a local
declaration, and every parameter of every call, gets a location of its
own, and what a name means is decided by a view: the local names that
the text before a place has declared, with their locations.

# The view of a place

A declaration extends the view of what follows it in its scope, and what
stands behind the scope has the view from before. A function keeps the
view of its declaration together with its own name, and its body sees
that and the parameters, whatever is declared near the function later
on. A name without a location in the view is a global and is looked up
by name when it is used.

# The name that is being declared

A local variable has no location while its initializer runs, and the
name does not mean anything else either: to use it is a fault.
-/
import Lox.Session

namespace Lox.Lexical

open Lox.Run

-- ============================================================== the state

/-- Local names and the locations that they mean, the latest first. -/
abbrev Locals := List (String × Nat)

/-- What a program changes. -/
structure Memory where
  /-- The value at each location. -/
  cells : List Value
  globals : Bindings
  /-- What each function sees, by the stamp of the function. -/
  captured : List (Nat × Locals)
  output : String
  nextStamp : Nat
  clock : Clock

/-- What can be seen from a place of the program. -/
structure View where
  locals : Locals
  /-- Whether a block or a function surrounds the place. -/
  nested : Bool
  /-- The local variable whose initializer the place is in. -/
  pending : Option String

/-- The view of the top level. -/
def View.top : View := ⟨[], false, none⟩

/-- The view inside a block. -/
def View.inside (view : View) : View := { view with nested := true }

/-- The view of the initializer of a variable. -/
def View.initializing (view : View) (name : String) : View :=
  { view with pending := if view.nested then some name else none }

/-- The view behind a declaration that got this location. At the top
level there are no local names. -/
def View.bind (view : View) (name : String) (location : Nat) : View :=
  if view.nested then
    { view with locals := (name, location) :: view.locals }
  else
    view

/-- The location that a name means and the value there; a global has
none. -/
def Memory.find (μ : Memory) (view : View) (name : String) :
    Except RuntimeFault (Option Nat × Value) :=
  if view.pending = some name then
    .error (.undefined name)
  else
    let location := view.locals.lookup name
    match location.elim (μ.globals.find? name) (μ.cells[·]?) with
    | some v => .ok (location, v)
    | none => .error (.undefined name)

section Find

variable (μ : Memory) {view : View} {name : String}

/-- A name that is pending means nothing. -/
theorem Memory.find_of_pending (h : view.pending = some name) :
    μ.find view name = .error (.undefined name) := by
  unfold find
  exact if_pos h

/-- Any other name is looked for at its location, or among the
globals. -/
theorem Memory.find_of_not_pending (h : view.pending ≠ some name) :
    μ.find view name
      = match (view.locals.lookup name).elim (μ.globals.find? name)
          (μ.cells[·]?) with
        | some v => .ok (view.locals.lookup name, v)
        | none => .error (.undefined name) := by
  unfold find
  exact if_neg h

end Find

/-- Changes the value at a location, or that of a global. -/
def Memory.store (μ : Memory) (location : Option Nat) (name : String)
    (v : Value) : Memory :=
  match location with
  | some ℓ => { μ with cells := μ.cells.set ℓ v }
  | none => { μ with globals := μ.globals.put name v }

/-- The memory after a declaration: a new location, or a global. -/
def Memory.declare (μ : Memory) (view : View) (name : String) (v : Value) :
    Memory :=
  if view.nested then { μ with cells := μ.cells ++ [v] }
  else { μ with globals := μ.globals.put name v }

/-- What a function sees: the names around its declaration and, if it is
local, its own. -/
def Memory.closure (μ : Memory) (stamp : Nat) : View :=
  ⟨(μ.captured.lookup stamp).getD [], true, none⟩

/-- The memory after the next stamp is taken, for a function that sees
these names. -/
def Memory.capture (μ : Memory) (locals : Locals) : Memory :=
  { μ with
    nextStamp := μ.nextStamp + 1
    captured := (μ.nextStamp, locals) :: μ.captured }

theorem Memory.lookup_capture_self (μ : Memory) (locals : Locals) :
    (μ.capture locals).captured.lookup μ.nextStamp = some locals :=
  List.lookup_cons_self

theorem Memory.lookup_capture_of_ne {μ : Memory} {stamp : Nat}
    (h : stamp ≠ μ.nextStamp) (locals : Locals) :
    (μ.capture locals).captured.lookup stamp = μ.captured.lookup stamp := by
  simp [capture, List.lookup_cons, beq_false_of_ne h]

/-- Nothing that was captured is lost to a new stamp. -/
theorem Memory.lookup_capture_of_lookup {μ : Memory}
    (hfresh : μ.captured.lookup μ.nextStamp = none) (locals : Locals)
    {stamp : Nat} {seen : Locals} (h : μ.captured.lookup stamp = some seen) :
    (μ.capture locals).captured.lookup stamp = some seen := by
  have hne : stamp ≠ μ.nextStamp := by
    rintro rfl
    rw [hfresh] at h
    cases h
  rw [lookup_capture_of_ne hne]
  exact h

-- ============================================================ small steps

/-- The value of a use of a name. -/
def readName (view : View) (name : String) : RunOn Memory Value := do
  let μ ← get
  let (_, v) ← ofExcept (μ.find view name)
  return v

/-- Gives the name of a use a new value. -/
def writeName (view : View) (name : String) (v : Value) :
    RunOn Memory Unit := do
  let μ ← get
  let (location, _) ← ofExcept (μ.find view name)
  modify fun μ => μ.store location name v

/-- A use of a name is given by what is found. -/
theorem readName_apply (view : View) (name : String) (μ : Memory) :
    readName view name μ
      = match μ.find view name with
        | .ok (_, v) => .ok v μ
        | .error fault => .error (.fault fault none) μ := by
  show (ofExcept (μ.find view name) >>= _) μ = _
  cases μ.find view name <;> rfl

/-- A new value is stored where the name is found. -/
theorem writeName_apply (view : View) (name : String) (v : Value)
    (μ : Memory) :
    writeName view name v μ
      = match μ.find view name with
        | .ok (location, _) => .ok () (μ.store location name v)
        | .error fault => .error (.fault fault none) μ := by
  show (ofExcept (μ.find view name) >>= _) μ = _
  cases μ.find view name <;> rfl

/-- Declares a name, and gives the view behind the declaration. -/
def declare (view : View) (name : String) (v : Value) :
    RunOn Memory View :=
  modifyGet fun μ =>
    (view.bind name μ.cells.length, μ.declare view name v)

/-- Declares names one after another. -/
def declareAll (view : View) : List (String × Value) → RunOn Memory View
  | [] => return view
  | (name, v) :: named => do declareAll (← declare view name v) named

/-- Makes a function that sees what is around its declaration and
itself, and declares it. -/
def declareFunction (view : View) (name : String) (params : List String)
    (body : List Stmt) : RunOn Memory View := do
  let stamp ← modifyGet fun μ =>
    let seen := view.bind name μ.cells.length
    (μ.nextStamp,
      { μ with
        nextStamp := μ.nextStamp + 1
        captured := (μ.nextStamp, seen.locals) :: μ.captured })
  declare view name (.function ⟨stamp, name, params, body, .globals⟩)

/-- The function that is declared has the next stamp, under which its own
view is captured. -/
theorem declareFunction_apply (view : View) (name : String)
    (params : List String) (body : List Stmt) (μ : Memory) :
    declareFunction view name params body μ
      = declare view name
          (.function ⟨μ.nextStamp, name, params, body, .globals⟩)
          (μ.capture (view.bind name μ.cells.length).locals) :=
  rfl

/-- Prints a line. -/
def printLine (line : String) : RunOn Memory Unit :=
  modify fun μ => { μ with output := μ.output ++ line ++ "\n" }

/-- The time. -/
def readClock : RunOn Memory Float :=
  modifyGet fun μ => (μ.clock.now, { μ with clock := μ.clock.later })

/-- Executes statements in turn until one returns, each with the view
behind those before it. -/
def untilReturn
    (execute : View → Stmt → RunOn Memory (Completion × View)) :
    View → List Stmt → RunOn Memory Completion
  | _, [] => return .normal
  | view, s :: ss => do
    match ← execute view s with
    | (.normal, view) => untilReturn execute view ss
    | (.returned v, _) => return .returned v

-- ============================================================= evaluation

mutual

/-- The value of an expression. -/
def evaluate (rounds : Nat) : Nat → View → Expr → RunOn Memory Value
  | 0, _, _ => throw .stackOverflow
  | room + 1, view, e => located e.node do
    match e with
    | .literal _ value => return value.value
    | .var _ name => readName view name
    | .assign _ name value =>
      let v ← evaluate rounds room view value
      writeName view name v
      return v
    | .group _ inner => evaluate rounds room view inner
    | .unary _ op operand =>
      let v ← evaluate rounds room view operand
      ofExcept (op.apply v)
    | .binary _ op left right =>
      let a ← evaluate rounds room view left
      let b ← evaluate rounds room view right
      ofExcept (op.apply a b)
    | .logical _ op left right =>
      let a ← evaluate rounds room view left
      if op.decidedBy a then return a else evaluate rounds room view right
    | .call _ _ callee args =>
      let f ← evaluate rounds room view callee
      if f.callable then
        let values ← each (evaluate rounds room view) args
        call rounds room f values
      else
        raise (.notCallable f)

/-- The value of a call. -/
def call (rounds : Nat) : Nat → Value → List Value → RunOn Memory Value
  | 0, _, _ => throw .stackOverflow
  | room + 1, .function f, args => do
    checkArity f.params.length args
    let view ← declareAll ((← get).closure f.stamp) (f.params.zip args)
    let completion ← untilReturn (execute rounds room) view f.body
    return completion.value
  | room + 1, .native f, args => do
    checkArity f.arity args
    perform readClock printLine (call rounds room) args
      (f.action.deed (args.map Value.sight))
  | _ + 1, v, _ => raise (.notCallable v)

/-- The effect of a statement, and the view behind it. -/
def execute (rounds : Nat) :
    Nat → View → Stmt → RunOn Memory (Completion × View)
  | 0, _, _ => throw .stackOverflow
  | room + 1, view, s => located s.node do
    match s with
    | .expr _ value =>
      let _ ← evaluate rounds room view value
      return (.normal, view)
    | .print _ value =>
      let v ← evaluate rounds room view value
      printLine v.printed
      return (.normal, view)
    | .varDecl _ name init =>
      let v ← match init with
        | none => pure .nil
        | some e => evaluate rounds room (view.initializing name.text) e
      return (.normal, ← declare view name.text v)
    | .funDecl _ name _ params _ body =>
      return (.normal,
        ← declareFunction view name.text (params.map Name.text) body)
    | .block _ body =>
      return (← untilReturn (execute rounds room) view.inside body, view)
    | .cond _ test yes no =>
      let v ← evaluate rounds room view test
      if v.truthy then
        return ((← execute rounds room view yes).1, view)
      else
        match no with
        | none => return (.normal, view)
        | some other =>
          return ((← execute rounds room view other).1, view)
    | .loop _ test body =>
      let completion ← repeatWhile
        (return (← evaluate rounds room view test).truthy)
        (return (← execute rounds room view body).1) rounds
      return (completion, view)
    | .ret _ value =>
      match value with
      | none => return (.returned .nil, view)
      | some e => return (.returned (← evaluate rounds room view e), view)

end

/-- The effect of a program. -/
def runProgram (rounds room : Nat) (program : List Stmt) :
    RunOn Memory Unit := do
  match ← untilReturn (execute rounds room) .top program with
  | .normal => return ()
  | .returned v => throw (.strayReturn v)

-- =============================================================== sessions

/-- The memory with one more native among the globals. -/
def Memory.install (μ : Memory) (spec : NativeSpec) : Memory :=
  let native : Native := ⟨μ.nextStamp, spec.name, spec.arity, spec.action⟩
  { μ with
    globals := μ.globals.put spec.name (.native native)
    nextStamp := μ.nextStamp + 1 }

/-- The memory before the first unit. -/
def Memory.initial (clock : Clock) (natives : List NativeSpec) : Memory :=
  (clockSpec :: natives).foldl install ⟨[], [], [], "", 0, clock⟩

/-- What one unit leaves to the next. -/
structure Session where
  memory : Memory
  nextId : Nat

namespace Session

/-- A session before its first unit. -/
def start (clock : Clock) (natives : List NativeSpec) : Session :=
  ⟨.initial clock natives, 1⟩

/-- The globals, by names. -/
def globals (s : Session) : Bindings := s.memory.globals.sorted

/-- Runs a program that was accepted. -/
def runAccepted (s : Session) (program : List Stmt) : Session × Report :=
  match runProgram roundBound nestingRoom program s.memory with
  | .ok _ μ => ({ s with memory := { μ with output := "" } },
      ⟨μ.output, none⟩)
  | .error stop μ => ({ s with memory := { μ with output := "" } },
      ⟨μ.output, some (.ofInterruption stop)⟩)

/-- Runs a unit. It is rejected for the same reasons as ever. -/
def run (s : Session) (source : String) : Session × Report :=
  let (read, nextId) := readProgram source s.nextId
  let s := { s with nextId }
  match read with
  | .error e => (s, ⟨"", some (.text e)⟩)
  | .ok program =>
    match bindProgram program with
    | .error errors => (s, ⟨"", some (.binding errors)⟩)
    | .ok _ => s.runAccepted program

/-- Runs units one after another. -/
def runAll (s : Session) : List String → Session × List Report
  | [] => (s, [])
  | source :: sources =>
    let (s, report) := s.run source
    let (s, reports) := s.runAll sources
    (s, report :: reports)

end Session

end Lox.Lexical
