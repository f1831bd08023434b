/-
Two runs side by side. A world is a moment of a run on the machine and
the same moment of the lexical run, together with what each location
stands for: the scope that binds the name, and the name (`places`). The
two moments are related if they agree in everything that can be seen, up
to the closures of functions, and every function that can be reached is
faithful: what its closure would find by the depths in the table is what
the lexical run has captured for it.

# Why later declarations do no harm

The scopes of a closure go on growing after the function was made, and
the function must not see what is added. `Shows` says of a chain of
scopes only where the names are that were declared before, and a place,
once taken, stays (`Shows.mono`). What the table says leads there and
nowhere else.

# Who may declare in a scope

A new place is in a scope that is itself new, or in the current scope of
the statement that runs, and there only if that statement is a
declaration (`Extends`). So between two statements of a scope nothing is
added to it (`Sees.own`), and at a declaration the name is not bound yet.
-/
import Lox.Proofs.Run.MapFunctions
import Lox.Proofs.Scoping.Bound
import Lox.Proofs.Scoping.Lexical

namespace Lox

-- ==================================================== values without closures

/-- A function without the environment of its declaration. -/
def Function.unclosed (f : Function) : Function :=
  { f with closure := .globals }

/-- A value without the environments of its functions. -/
abbrev Value.unclosed (v : Value) : Value := v.mapFn Function.unclosed

theorem unnoticed_unclosed : Unnoticed Function.unclosed :=
  ⟨fun _ => rfl, fun _ => rfl, fun _ => rfl⟩

namespace Scoping

open Lexical (Locals View Memory)

-- ================================================================ worlds

/-- The scope that binds a name, and the name. -/
abbrev Place := Nat × String

/-- The same moment of two runs, and the place that each location
stands for. -/
structure World where
  machine : Machine
  memory : Memory
  places : List Place

/-- The local names of a view are just those that the scopes declare,
and each is found at the place where the depth in the scopes leads
along the chain. -/
structure Shows (places : List Place) (scopes : Scopes) (chain : List Nat)
    (locals : Locals) : Prop where
  length : chain.length = scopes.length + 1
  ground : ∀ scope ∈ chain.head?, scope = 0 ↔ scopes = []
  found : ∀ name depth, scopes.depth? name = some depth →
    ∃ scope location, chain[depth]? = some scope ∧
      locals.lookup name = some location ∧
      places[location]? = some (scope, name)
  global : ∀ name, scopes.depth? name = none → locals.lookup name = none

section Faithful

variable (table : Table) (limit : Nat)

/-- What the function sees by the table is what was captured for it. -/
def Faithful (w : World) (f : Function) : Prop :=
  ∃ scopes locals,
    w.memory.captured.lookup f.stamp = some locals ∧
    Shows w.places scopes f.closure.chain locals ∧
    f.params.Nodup ∧
    Stmt.AllPlaced table limit (f.params.reverse :: scopes) f.body

/-- Whether a value is a function or not, it is faithful. -/
def FaithfulValue (w : World) (v : Value) : Prop :=
  ∀ f, v = .function f → Faithful table limit w f

/-- The two moments of a world agree. -/
structure Related (w : World) : Prop where
  size : 0 < w.machine.store.size
  nodup : w.places.Nodup
  bound : ∀ scope name, (scope, name) ∈ w.places
    ↔ scope ≠ 0 ∧ (w.machine.store.lookup scope name).isSome
  length : w.memory.cells.length = w.places.length
  cells : ∀ (location : Nat) scope name v,
    w.places[location]? = some (scope, name) →
    w.machine.store.lookup scope name = some v →
      w.memory.cells[location]? = some v.unclosed
  globals : w.memory.globals
    = (w.machine.store.bindings 0).mapFn Function.unclosed
  faithful : ∀ scope name v, w.machine.store.lookup scope name = some v →
    FaithfulValue table limit w v
  stamps : ∀ stamp, w.memory.nextStamp ≤ stamp →
    w.memory.captured.lookup stamp = none
  nextStamp : w.memory.nextStamp = w.machine.nextStamp
  output : w.memory.output = w.machine.output
  clock : w.memory.clock = w.machine.clock

end Faithful

/-- A later moment of both runs. A new place is in a new scope, or in the
current one if this may declare. -/
structure Extends (declares : Bool) (w w' : World) : Prop where
  env : w'.machine.env = w.machine.env
  size : w.machine.store.size ≤ w'.machine.store.size
  places : ∃ more, w'.places = w.places ++ more ∧ ∀ p ∈ more,
    w.machine.store.size ≤ p.1 ∨
      declares = true ∧ p.1 = w.machine.env.scope
  captured : ∀ stamp locals,
    w.memory.captured.lookup stamp = some locals →
      w'.memory.captured.lookup stamp = some locals

/-- What can be seen at a place of the program, in both runs. -/
structure Sees (w : World) (scopes : Scopes) (view : View) : Prop where
  shows : Shows w.places scopes w.machine.env.chain view.locals
  own : ∀ scope ∈ scopes.head?, ∀ name,
    (w.machine.env.scope, name) ∈ w.places → name ∈ scope
  inside : w.machine.env.scope < w.machine.store.size
  nested : view.nested = !scopes.isEmpty
  pending : ∀ name, view.pending = some name →
    scopes ≠ [] ∧ scopes.Fresh name

-- ============================================================= monotonicity

namespace Extends

theorem refl (declares : Bool) (w : World) : Extends declares w w :=
  ⟨rfl, Nat.le_refl _, ⟨[], by simp, nofun⟩, fun _ _ h => h⟩

variable {declares : Bool} {w w' w'' : World}

theorem trans (h : Extends declares w w') (h' : Extends declares w' w'') :
    Extends declares w w'' := by
  obtain ⟨more, hplaces, hmore⟩ := h.places
  obtain ⟨more', hplaces', hmore'⟩ := h'.places
  refine ⟨h'.env.trans h.env, Nat.le_trans h.size h'.size,
    ⟨more ++ more', ?_, ?_⟩, fun _ _ hc => h'.captured _ _ (h.captured _ _ hc)⟩
  · rw [hplaces', hplaces, List.append_assoc]
  · intro p hp
    rcases List.mem_append.1 hp with hp | hp
    · exact hmore p hp
    · rcases hmore' p hp with hfresh | ⟨hdeclares, hown⟩
      · exact .inl (Nat.le_trans h.size hfresh)
      · exact .inr ⟨hdeclares, by rw [hown, h.env]⟩

/-- What may not declare may be taken for something that may. -/
theorem weaken {declares' : Bool} (h : Extends declares w w')
    (hle : declares = true → declares' = true) : Extends declares' w w' := by
  obtain ⟨more, hplaces, hmore⟩ := h.places
  refine ⟨h.env, h.size, ⟨more, hplaces, fun p hp => ?_⟩, h.captured⟩
  rcases hmore p hp with hfresh | ⟨hdeclares, hown⟩
  · exact .inl hfresh
  · exact .inr ⟨hle hdeclares, hown⟩

theorem getElem?_places (h : Extends declares w w') {location : Nat}
    {p : Place} (hp : w.places[location]? = some p) :
    w'.places[location]? = some p := by
  obtain ⟨more, hplaces, -⟩ := h.places
  rw [hplaces, List.getElem?_append_left (List.getElem?_eq_some_iff.1 hp).1,
    hp]

end Extends

/-- A place, once taken, stays. -/
theorem Shows.mono {places places' : List Place} {scopes : Scopes}
    {chain : List Nat} {locals : Locals}
    (h : Shows places scopes chain locals)
    (hplaces : ∀ (location : Nat) p, places[location]? = some p →
      places'[location]? = some p) :
    Shows places' scopes chain locals := by
  refine ⟨h.length, h.ground, fun name depth hdepth => ?_, h.global⟩
  obtain ⟨scope, location, hscope, hlocation, hplace⟩ := h.found _ _ hdepth
  exact ⟨scope, location, hscope, hlocation, hplaces _ _ hplace⟩

section Mono

variable {table : Table} {limit : Nat} {declares : Bool} {w w' : World}

theorem Faithful.mono {f : Function} (h : Faithful table limit w f)
    (hext : Extends declares w w') : Faithful table limit w' f := by
  obtain ⟨scopes, locals, hcaptured, hshows, hbody⟩ := h
  exact ⟨scopes, locals, hext.captured _ _ hcaptured,
    hshows.mono fun _ _ => hext.getElem?_places, hbody⟩

theorem FaithfulValue.mono {v : Value} (h : FaithfulValue table limit w v)
    (hext : Extends declares w w') : FaithfulValue table limit w' v :=
  fun f hf => (h f hf).mono hext

/-- What declares nothing leaves what can be seen as it was. -/
theorem Sees.mono {scopes : Scopes} {view : View}
    (h : Sees w scopes view) (hext : Extends false w w') :
    Sees w' scopes view := by
  refine ⟨?_, ?_, ?_, h.nested, h.pending⟩
  · rw [hext.env]
    exact h.shows.mono fun _ _ => hext.getElem?_places
  · intro scope hscope name hname
    obtain ⟨more, hplaces, hmore⟩ := hext.places
    rw [hext.env, hplaces] at hname
    rcases List.mem_append.1 hname with hname | hname
    · exact h.own scope hscope name hname
    · have hinside := h.inside
      rcases hmore _ hname with hfresh | ⟨hdeclares, -⟩
      · exact absurd hfresh (Nat.not_le.2 hinside)
      · cases hdeclares
  · rw [hext.env]
    exact Nat.lt_of_lt_of_le h.inside hext.size

end Mono

-- ======================================================= changes of worlds

/-- The world with another current environment. -/
def World.at (w : World) (env : Env) : World :=
  { w with machine := { w.machine with env } }

/-- The world with a new scope. -/
def World.grow (w : World) : World :=
  { w with machine := { w.machine with store := w.machine.store.grow } }

section Changes

variable {table : Table} {limit : Nat} {w : World}

/-- The current environment is not seen from outside. -/
theorem Related.at (h : Related table limit w) (env : Env) :
    Related table limit (w.at env) :=
  { h with }

/-- A new scope binds nothing. -/
theorem Related.grow (h : Related table limit w) :
    Related table limit w.grow :=
  { h with
    size := by simp [World.grow]
    bound := fun scope name => by
      simpa [World.grow, Store.lookup_grow] using h.bound scope name
    cells := fun location scope name v hplace hv =>
      h.cells location scope name v hplace (by
        simpa [World.grow, Store.lookup_grow] using hv)
    globals := by simpa [World.grow, Store.bindings_grow] using h.globals
    faithful := fun scope name v hv =>
      h.faithful scope name v (by
        simpa [World.grow, Store.lookup_grow] using hv) }

end Changes

end Scoping

end Lox
