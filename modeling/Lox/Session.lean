/-
Sessions. A session runs one unit after another on one machine, so a
unit sees the globals that earlier ones left and may call functions that
earlier ones declared. Each unit is read and bound as a whole before any
of it runs. A unit that is rejected leaves nothing behind but the node
identities it used up; one that fails while it runs leaves what it did.
-/
import Lox.Failure
import Lox.Run.Evaluate

namespace Lox

-- ============================================================ the machine

/-- A native as the host registers it. -/
structure NativeSpec where
  name : String
  arity : Nat
  action : NativeAction

/-- The native that every machine has. -/
def clockSpec : NativeSpec := ⟨"clock", 0, .clock⟩

/-- How many steps can be nested. -/
def nestingRoom : Nat := 2500

/-- How many rounds a loop can go. -/
def roundBound : Nat := 1000000000000000000

namespace Machine

/-- The machine with one more native among the globals, in place of an
earlier one of its name. -/
def install (m : Machine) (spec : NativeSpec) : Machine :=
  let native : Native := ⟨m.nextStamp, spec.name, spec.arity, spec.action⟩
  { m with
    store := m.store.define .globals spec.name (.native native)
    nextStamp := m.nextStamp + 1 }

/-- A machine before its first unit, with the natives of the host. -/
def initial (clock : Clock) (natives : List NativeSpec) : Machine :=
  (clockSpec :: natives).foldl install ⟨.initial, .globals, "", 0, clock⟩

/-- The machine after a program, and what interrupted it. -/
def interpret (m : Machine) (depths : Depths) (program : List Stmt) :
    Machine × Option Interruption :=
  let setting : Setting := ⟨.byDepth depths, roundBound⟩
  match runProgram setting nestingRoom program m with
  | .ok _ m => (m, none)
  | .error stop m => (m, some stop)

/-- The globals, by names. -/
def globals (m : Machine) : Bindings := m.store.listing .globals

/-- Whether the globals are the current environment. -/
def atGlobals (m : Machine) : Bool := m.env == .globals

end Machine

/-- One program run on a machine of its own. Unless its names are bound
first, every name means a global. -/
def runAlone (m : Machine) (bound : Bool) (source : String) :
    Machine × Option Failure :=
  match (readProgram source 1).1 with
  | .error e => (m, some (.text e))
  | .ok program =>
    match if bound then bindProgram program else .ok [] with
    | .error errors => (m, some (.binding errors))
    | .ok uses =>
      let (m, stop) := m.interpret (Depths.record ∅ uses) program
      (m, stop.map .ofInterruption)

-- ================================================================ sessions

/-- What one unit leaves to the next. -/
structure Session where
  /-- The machine, which between units is at the globals and has nothing
  printed. -/
  machine : Machine
  /-- How far out every local use of the units so far is bound. -/
  depths : Depths
  /-- The identity of the next node. -/
  nextId : Nat

/-- What a unit printed, and why it did not run to its end. -/
structure Report where
  output : String
  failure : Option Failure

namespace Session

/-- A session before its first unit. -/
def start (clock : Clock) (natives : List NativeSpec) : Session :=
  ⟨.initial clock natives, ∅, 1⟩

/-- Runs a program whose local uses are known. -/
def runBound (s : Session) (program : List Stmt) (uses : List LocalUse) :
    Session × Report :=
  let depths := s.depths.record uses
  let (m, stop) := s.machine.interpret depths program
  let rested := { m with env := .globals, output := "" }
  ({ s with machine := rested, depths },
    ⟨m.output, stop.map .ofInterruption⟩)

/-- Runs a unit. -/
def run (s : Session) (source : String) : Session × Report :=
  let (read, nextId) := readProgram source s.nextId
  let s := { s with nextId }
  match read with
  | .error e => (s, ⟨"", some (.text e)⟩)
  | .ok program =>
    match bindProgram program with
    | .error errors => (s, ⟨"", some (.binding errors)⟩)
    | .ok uses => s.runBound program uses

/-- Runs units one after another. -/
def runAll (s : Session) : List String → Session × List Report
  | [] => (s, [])
  | source :: sources =>
    let (s, report) := s.run source
    let (s, reports) := s.runAll sources
    (s, report :: reports)

end Session

end Lox
