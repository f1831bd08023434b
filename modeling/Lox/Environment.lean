/-
Environments and the store of their scopes. A scope binds names to
values and is shared by every environment that goes through it, so a
function sees what was assigned to a variable after its declaration. The
store only grows: a scope stays what it is until something is defined or
assigned in it, and its place in a chain never changes.

A binding is reached in two ways: by walking outwards to the first scope
that binds the name, or by jumping a known number of scopes outwards and
looking there alone.
-/
import Lox.Run.Fault

namespace Lox

-- ================================================================ bindings

/-- What a scope binds, in the order of the first definitions. -/
abbrev Bindings := List (String × Value)

namespace Bindings

/-- The value of a name. -/
def find? : Bindings → String → Option Value
  | [], _ => none
  | (n, v) :: bs, name => if n = name then some v else find? bs name

/-- Binds a name anew: in its place if it is bound, else at the end. -/
def put (name : String) (v : Value) : Bindings → Bindings
  | [] => [(name, v)]
  | (n, old) :: bs =>
    if n = name then (n, v) :: bs else (n, old) :: put name v bs

theorem find?_put_self (bs : Bindings) (name : String) (v : Value) :
    (put name v bs).find? name = some v := by
  induction bs with
  | nil => simp [put, find?]
  | cons b bs ih =>
    obtain ⟨n, old⟩ := b
    by_cases h : n = name
    · simp [put, find?, h]
    · simpa [put, find?, h] using ih

theorem find?_put_of_ne {name other : String} (h : other ≠ name)
    (bs : Bindings) (v : Value) :
    (put name v bs).find? other = bs.find? other := by
  induction bs with
  | nil => simp [put, find?, h.symm]
  | cons b bs ih =>
    obtain ⟨n, old⟩ := b
    by_cases hn : n = name
    · subst hn
      simp [put, find?, h.symm]
    · simp only [put, hn, if_false, find?, ih]

/-- The bindings in the order of their names, by code points. -/
def sorted (bs : Bindings) : Bindings :=
  bs.mergeSort fun a b => decide (a.1 ≤ b.1)

end Bindings

-- ============================================================== the store

/-- The scopes made so far, each known by its number. -/
structure Store where
  scopes : Array Bindings

namespace Env

/-- The scopes of an environment, the innermost first. -/
def chain (e : Env) : List Nat := e.scope :: e.enclosing

/-- How many scopes stand around the own one. -/
def depth (e : Env) : Nat := e.enclosing.length

/-- The environment a number of scopes outwards. -/
def ancestor (e : Env) (depth : Nat) : Except RuntimeFault Env :=
  match e.chain.drop depth with
  | scope :: enclosing => .ok ⟨scope, enclosing⟩
  | [] => .error (.depthBeyondChain depth)

end Env

namespace Store

/-- A store with the scope of the globals alone. -/
def initial : Store := ⟨#[[]]⟩

/-- How many scopes there are. -/
def size (s : Store) : Nat := s.scopes.size

/-- What a scope binds. -/
def bindings (s : Store) (scope : Nat) : Bindings :=
  (s.scopes[scope]?).getD []

/-- The value of a name in a scope. -/
def lookup (s : Store) (scope : Nat) (name : String) : Option Value :=
  (s.bindings scope).find? name

/-- Binds a name in a scope. -/
def bind (s : Store) (scope : Nat) (name : String) (v : Value) : Store :=
  ⟨s.scopes.modify scope (Bindings.put name v)⟩

/-- A new scope that binds nothing. -/
def grow (s : Store) : Store := ⟨s.scopes.push []⟩

@[simp] theorem size_bind (s : Store) (scope : Nat) (name : String)
    (v : Value) : (s.bind scope name v).size = s.size := by
  simp [bind, size]

@[simp] theorem size_grow (s : Store) : s.grow.size = s.size + 1 := by
  simp [grow, size]

/-- Binding a name changes its own scope alone. -/
theorem bindings_bind (s : Store) (scope other : Nat) (name : String)
    (v : Value) :
    (s.bind scope name v).bindings other
      = if scope = other ∧ other < s.size
        then Bindings.put name v (s.bindings other)
        else s.bindings other := by
  simp only [bind, bindings, size, Array.getElem?_modify]
  by_cases h : scope = other
  · by_cases hlt : other < s.scopes.size <;> simp [h, hlt]
  · simp [h]

/-- A new scope binds nothing, and no scope before it changes. -/
theorem bindings_grow (s : Store) (scope : Nat) :
    s.grow.bindings scope = s.bindings scope := by
  simp only [grow, bindings, Array.getElem?_push]
  split
  · simp_all
  · rfl

theorem lookup_grow (s : Store) (scope : Nat) (name : String) :
    s.grow.lookup scope name = s.lookup scope name := by
  simp [lookup, bindings_grow]

/-- A name just bound in a scope of the store has its new value. -/
theorem lookup_bind_self {s : Store} {scope : Nat} (h : scope < s.size)
    (name : String) (v : Value) :
    (s.bind scope name v).lookup scope name = some v := by
  simp [lookup, bindings_bind, h, Bindings.find?_put_self]

/-- Any other name, or the same name in another scope, keeps its
value. -/
theorem lookup_bind_of_ne {s : Store} {scope other : Nat}
    {name otherName : String} (h : other ≠ scope ∨ otherName ≠ name)
    (v : Value) :
    (s.bind scope name v).lookup other otherName
      = s.lookup other otherName := by
  simp only [lookup, bindings_bind]
  split
  · rename_i hin
    rcases h with h | h
    · exact absurd hin.1.symm h
    · exact Bindings.find?_put_of_ne h _ v
  · rfl

-- ========================================================= environments

/-- An environment of a new scope with nothing around it. -/
def newRoot (s : Store) : Env × Store := (⟨s.size, []⟩, s.grow)

/-- An environment of a new scope inside a given one. -/
def newChild (s : Store) (e : Env) : Env × Store :=
  (⟨s.size, e.chain⟩, s.grow)

/-- Binds a name in the own scope of an environment. -/
def define (s : Store) (e : Env) (name : String) (v : Value) : Store :=
  s.bind e.scope name v

/-- Binds each name to its value. -/
def defineAll (s : Store) (e : Env) (named : List (String × Value)) :
    Store :=
  named.foldl (fun s p => s.define e p.1 p.2) s

/-- The first scope of an environment that binds a name, and the value
there. -/
def reach (s : Store) (e : Env) (name : String) :
    Except RuntimeFault (Nat × Value) :=
  match e.chain.findSome? fun i => (s.lookup i name).map (i, ·) with
  | some found => .ok found
  | none => .error (.undefined name)

/-- The scope a number of scopes outwards, which must bind the name, and
the value there. -/
def reachAt (s : Store) (e : Env) (depth : Nat) (name : String) :
    Except RuntimeFault (Nat × Value) := do
  let target ← e.ancestor depth
  match s.lookup target.scope name with
  | some v => return (target.scope, v)
  | none => .error (.undefined name)

/-- The value of a name, found by walking outwards. -/
def get (s : Store) (e : Env) (name : String) :
    Except RuntimeFault Value := do
  let (_, v) ← s.reach e name
  return v

/-- Binds a name where walking outwards finds it, and gives back the
value before. -/
def assign (s : Store) (e : Env) (name : String) (v : Value) :
    Except RuntimeFault (Value × Store) := do
  let (scope, old) ← s.reach e name
  return (old, s.bind scope name v)

/-- The value of a name a number of scopes outwards. -/
def getAt (s : Store) (e : Env) (depth : Nat) (name : String) :
    Except RuntimeFault Value := do
  let (_, v) ← s.reachAt e depth name
  return v

/-- Binds a name a number of scopes outwards, where it must be bound,
and gives back the value before. -/
def assignAt (s : Store) (e : Env) (depth : Nat) (name : String)
    (v : Value) : Except RuntimeFault (Value × Store) := do
  let (scope, old) ← s.reachAt e depth name
  return (old, s.bind scope name v)

-- ============================================================ inspection

/-- What the own scope of an environment binds, by names. -/
def listing (s : Store) (e : Env) : Bindings :=
  (s.bindings e.scope).sorted

/-- An environment as text: its depth and the names that it binds. -/
def describe (s : Store) (e : Env) : String :=
  let names := (s.listing e).map fun b => "'" ++ b.1 ++ "'"
  s!"<Environment depth={e.depth} names=[" ++ ", ".intercalate names
    ++ "]>"

end Store

end Lox
