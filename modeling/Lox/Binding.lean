/-
Which declaration a name means. A program is surveyed once before it
runs. For every use of a name that some local scope binds, the survey
notes how many scopes lie between the use and the declaration; a use
that no local scope binds is left out and means the global of that name.

A block opens a scope, and so does a function, for its parameters and
the statements of its body together. Only what was declared before a use
counts for it, and a name counts as declared from its declaration on, in
its own initializer too, where it must not be read. At the top level
there is no scope, so nothing is bound there and nothing declared twice.
Every statement of the top level is surveyed on its own, so each can
give one error.
-/
import Std.Data.TreeMap
import Lox.Diagnostics
import Lox.Tree
import Lox.Binding.Survey

namespace Lox

-- ========================================================= what is noted

/-- What a use of a name does with what it is bound to. -/
inductive UseKind where
  | read
  | write
deriving Repr, DecidableEq

/-- A use of a name that a local scope binds. -/
structure LocalUse where
  node : Node
  name : String
  kind : UseKind
  /-- How many scopes lie between the use and the declaration. -/
  depth : Nat
deriving Repr, DecidableEq

/-- What can be wrong with the names of a program. -/
inductive BindingFault where
  /-- A scope declares the name twice. -/
  | declaredTwice (name : String)
  /-- A local variable is read while it gets its first value. -/
  | readInInitializer (name : String)
  /-- A return that no function surrounds. -/
  | strayReturn
deriving Repr, DecidableEq

/-- The wording of a fault. -/
def BindingFault.message : BindingFault → String
  | declaredTwice name =>
      "Variable '" ++ name ++ "' already declared in this scope"
  | readInInitializer name =>
      "Cannot read local variable '" ++ name ++ "' in its own initializer"
  | strayReturn => "Cannot return from top-level code"

/-- A fault and its place. -/
structure BindingError where
  fault : BindingFault
  pos : Position
deriving Repr, DecidableEq

/-- The full text of the diagnostic. -/
def BindingError.message (e : BindingError) : String :=
  e.fault.message ++ e.pos.suffix

-- ================================================================ scopes

/-- The names declared in a scope so far. -/
abbrev Scope := List String

/-- The scopes around a place, the innermost first; none at the top
level. -/
abbrev Scopes := List Scope

/-- How many scopes out a name is declared, if it is. -/
def Scopes.depth? (scopes : Scopes) (name : String) : Option Nat :=
  scopes.findIdx? (name ∈ ·)

/-- A survey of the uses of names. -/
abbrev Names := Survey LocalUse BindingError

/-- Notes a use of a name, if a local scope binds it. -/
def Scopes.use (scopes : Scopes) (kind : UseKind) (node : Node)
    (name : String) : Names Unit :=
  match scopes.depth? name with
  | some depth => .note ⟨node, name, kind, depth⟩
  | none => .done ()

/-- The scopes after a declaration, which must be the first of its name
in the innermost. -/
def Scopes.declare (scopes : Scopes) (name : Name) : Names Scopes :=
  match scopes with
  | [] => .done []
  | scope :: outer =>
    if name.text ∈ scope then .stop ⟨.declaredTwice name.text, name.pos⟩
    else .done ((name.text :: scope) :: outer)

/-- The scopes after one declaration of each name. -/
def Scopes.declareAll (scopes : Scopes) : List Name → Names Scopes
  | [] => .done scopes
  | name :: names => do (← scopes.declare name).declareAll names

-- =========================================================== expressions

mutual

/-- The uses in an expression. `pending` is the local variable that the
expression gives its first value. -/
def Expr.survey (scopes : Scopes) (pending : Option String) :
    Expr → Names Unit
  | .literal _ _ => .done ()
  | .var node name =>
      if pending = some name then .stop ⟨.readInInitializer name, node.pos⟩
      else scopes.use .read node name
  | .assign node name value => do
      value.survey scopes pending
      scopes.use .write node name
  | .group _ inner => inner.survey scopes pending
  | .unary _ _ operand => operand.survey scopes pending
  | .binary _ _ left right => do
      left.survey scopes pending
      right.survey scopes pending
  | .logical _ _ left right => do
      left.survey scopes pending
      right.survey scopes pending
  | .call _ _ callee args => do
      callee.survey scopes pending
      surveyAll scopes pending args

/-- The uses in some expressions, from left to right. -/
def Expr.surveyAll (scopes : Scopes) (pending : Option String) :
    List Expr → Names Unit
  | [] => .done ()
  | e :: es => do
      e.survey scopes pending
      surveyAll scopes pending es

end

-- ============================================================ statements

/-- The uses in an initializer. Only a local variable can be pending. -/
def Expr.surveyInit (scopes : Scopes) (name : String) (init : Option Expr) :
    Names Unit :=
  match init with
  | none => .done ()
  | some e =>
      e.survey scopes (if scopes.isEmpty then none else some name)

mutual

/-- The uses in a statement, and the scopes behind it. A branch or the
body of a loop declares nothing for what follows. -/
def Stmt.survey (inFunction : Bool) (scopes : Scopes) :
    Stmt → Names Scopes
  | .expr _ value => do
      value.survey scopes none
      return scopes
  | .print _ value => do
      value.survey scopes none
      return scopes
  | .varDecl _ name init => do
      let scopes ← scopes.declare name
      Expr.surveyInit scopes name.text init
      return scopes
  | .funDecl _ name _ params _ body => do
      let scopes ← scopes.declare name
      let inner ← Scopes.declareAll ([] :: scopes) params
      let _ ← surveyAll true inner body
      return scopes
  | .block _ body => do
      let _ ← surveyAll inFunction ([] :: scopes) body
      return scopes
  | .cond _ test yes no => do
      test.survey scopes none
      let _ ← yes.survey inFunction scopes
      match no with
      | none => return scopes
      | some other =>
        let _ ← other.survey inFunction scopes
        return scopes
  | .loop _ test body => do
      test.survey scopes none
      let _ ← body.survey inFunction scopes
      return scopes
  | .ret node value =>
      if inFunction then do
        match value with
        | none => return scopes
        | some e =>
          e.survey scopes none
          return scopes
      else .stop ⟨.strayReturn, node.pos⟩

/-- The uses in some statements, each with the scopes behind the one
before, and the scopes behind the last. -/
def Stmt.surveyAll (inFunction : Bool) (scopes : Scopes) :
    List Stmt → Names Scopes
  | [] => .done scopes
  | s :: ss => do
      surveyAll inFunction (← s.survey inFunction scopes) ss

end

-- ============================================================== programs

/-- The survey of a statement of the top level. -/
def Stmt.surveyTop (stmt : Stmt) : Names Scopes := stmt.survey false []

/-- What is noted in a program, also behind and before errors. -/
def localUses (program : List Stmt) : List LocalUse :=
  program.flatMap (Stmt.surveyTop · |>.notes)

/-- The errors of a program, at most one from each statement. -/
def bindingErrors (program : List Stmt) : List BindingError :=
  program.filterMap (Stmt.surveyTop · |>.error?)

/-- The local uses of a program, or its errors. -/
def bindProgram (program : List Stmt) :
    Except (Diagnostics BindingError) (List LocalUse) :=
  match Diagnostics.ofList? (bindingErrors program) with
  | some errors => .error errors
  | none => .ok (localUses program)

-- ============================================================ the table

/-- How many scopes out the use at a node is bound, by the identity of
the node. -/
abbrev Depths := Std.TreeMap Nat Nat

/-- The table with some more uses. -/
def Depths.record (depths : Depths) (uses : List LocalUse) : Depths :=
  uses.foldl (fun table use => table.insert use.node.id use.depth) depths

end Lox
