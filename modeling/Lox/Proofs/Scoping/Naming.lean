/-
Uses of names in both runs. The machine goes as many scopes outwards as
the table says, the lexical run looks at its view. In related moments
they find the same (`Sees.find_local`, `Sees.find_global`), a name that
is still pending is found by neither (`Sees.find_pending`), and what
they change leaves the moments related.
-/
import Lox.Proofs.Run.Finding
import Lox.Proofs.Scoping.Simulate

namespace Lox

namespace Scopes

-- ================================================================ depths

/-- The scopes around an initializer, with the name that is pending. -/
def expecting (scopes : Scopes) (pending : Option String) : Scopes :=
  pending.elim scopes scopes.add

theorem depth?_add_self {scopes : Scopes} (h : scopes ≠ []) (name : String) :
    (scopes.add name).depth? name = some 0 := by
  cases scopes with
  | nil => exact absurd rfl h
  | cons scope outer => simp [add, depth?_cons]

theorem depth?_add_of_ne {scopes : Scopes} {name other : String}
    (h : other ≠ name) :
    (scopes.add name).depth? other = scopes.depth? other := by
  cases scopes with
  | nil => rfl
  | cons scope outer => simp [add, depth?_cons, h]

theorem depth?_expecting {scopes : Scopes} {pending : Option String}
    {name : String} (h : pending ≠ some name) :
    (scopes.expecting pending).depth? name = scopes.depth? name := by
  cases pending with
  | none => rfl
  | some other =>
    exact depth?_add_of_ne fun heq => h (heq ▸ rfl)

end Scopes

namespace Scoping

open Lexical (Locals View Memory)

variable {depths : Depths} {limit : Nat} {w : World} {scopes : Scopes}
  {view : View} {id : Nat} {name : String}

/-- The table that a use looks at. -/
abbrev tableOf (depths : Depths) : Table := fun id => depths[id]?

/-- A location, or none for a global, and the scope that it stands for. -/
def Locates (w : World) (location : Option Nat) (scope : Nat)
    (name : String) : Prop :=
  match location with
  | some ℓ => w.places[ℓ]? = some (scope, name)
  | none => scope = 0

-- =============================================================== finding

/-- A use with an entry in the table, of a name that is not pending, is
bound where the entry leads, in both runs. -/
theorem Sees.find_local (h : Sees w scopes view)
    (hw : Related (tableOf depths) limit w)
    (hname : view.pending ≠ some name) {depth : Nat}
    (hdepth : scopes.depth? name = some depth) :
    ∃ scope v location, w.machine.env.chain[depth]? = some scope ∧
      w.machine.store.lookup scope name = some v ∧
      w.memory.find view name = .ok (some location, v.unclosed) ∧
      w.places[location]? = some (scope, name) := by
  obtain ⟨scope, location, hchain, hlocal, hplace⟩ := h.shows.found _ _ hdepth
  obtain ⟨-, hbound⟩ := (hw.bound scope name).1 (List.mem_of_getElem? hplace)
  obtain ⟨v, hv⟩ := Option.isSome_iff_exists.1 hbound
  refine ⟨scope, v, location, hchain, hv, ?_, hplace⟩
  have hcell := hw.cells location scope name v hplace hv
  rw [w.memory.find_of_not_pending hname, hlocal, Option.elim_some, hcell]

/-- A use without an entry means the global, in both runs. -/
theorem Sees.find_global (h : Sees w scopes view)
    (hw : Related (tableOf depths) limit w)
    (hname : view.pending ≠ some name)
    (hdepth : scopes.depth? name = none) :
    w.memory.find view name
      = match w.machine.store.lookup 0 name with
        | some v => .ok (none, v.unclosed)
        | none => .error (.undefined name) := by
  have hlocal := h.shows.global _ hdepth
  have hglobal : w.memory.globals.find? name
      = (w.machine.store.lookup 0 name).map Value.unclosed := by
    rw [hw.globals, Bindings.find?_mapFn]
    rfl
  rw [w.memory.find_of_not_pending hname, hlocal, Option.elim_none, hglobal]
  cases w.machine.store.lookup 0 name <;> rfl

/-- The name that is pending is bound nowhere that the table leads to. -/
theorem Sees.find_pending (h : Sees w scopes view)
    (hw : Related (tableOf depths) limit w)
    (hname : view.pending = some name) :
    w.machine.store.lookup w.machine.env.scope name = none ∧
      w.memory.find view name = .error (.undefined name) := by
  obtain ⟨hscopes, hfresh⟩ := h.pending name hname
  refine ⟨?_, w.memory.find_of_pending hname⟩
  have hlocal : w.machine.env.scope ≠ 0 := fun hzero =>
    hscopes ((h.shows.ground _ rfl).1 hzero)
  have habsent : (w.machine.env.scope, name) ∉ w.places := by
    cases scopes with
    | nil => exact absurd rfl hscopes
    | cons scope outer =>
      exact fun hmem => hfresh scope rfl (h.own scope rfl name hmem)
  rw [hw.bound] at habsent
  simpa [hlocal] using habsent

-- ============================================================== reading

/-- What both runs make of a use of a name: the same value and bindings
that belong together, or the same fault. -/
theorem Sees.find (h : Sees w scopes view)
    (hw : Related (tableOf depths) limit w)
    (hid : depths[id]? = (scopes.expecting view.pending).depth? name) :
    (∃ scope v location,
      (Access.byDepth depths).find w.machine.store w.machine.env id name
        = .ok (scope, v) ∧
      w.memory.find view name = .ok (location, v.unclosed) ∧
      w.machine.store.lookup scope name = some v ∧
      Locates w location scope name) ∨
    ((Access.byDepth depths).find w.machine.store w.machine.env id name
        = .error (.undefined name) ∧
      w.memory.find view name = .error (.undefined name)) := by
  -- A name whose initializer is read is found by neither run.
  by_cases hname : view.pending = some name
  · right
    obtain ⟨hlookup, hfind⟩ := h.find_pending hw hname
    obtain ⟨hscopes, -⟩ := h.pending name hname
    rw [hname, Scopes.expecting, Option.elim_some,
      Scopes.depth?_add_self hscopes] at hid
    refine ⟨?_, hfind⟩
    have hchain : w.machine.env.chain[0]? = some w.machine.env.scope := rfl
    simp only [Access.byDepth, hid]
    rw [Store.reachAt_of_chain hchain, Store.findIn_of_none hlookup]
  · rw [Scopes.depth?_expecting hname] at hid
    cases hdepth : scopes.depth? name with
    | some depth =>
      left
      obtain ⟨scope, v, location, hchain, hv, hfind, hplace⟩ :=
        h.find_local hw hname hdepth
      refine ⟨scope, v, some location, ?_, hfind, hv, hplace⟩
      simp only [Access.byDepth, hid, hdepth]
      rw [Store.reachAt_of_chain hchain, Store.findIn_of_some hv]
    | none =>
      have hfind := h.find_global hw hname hdepth
      simp only [Access.byDepth, hid, hdepth]
      rw [Store.reach_globals]
      cases hv : w.machine.store.lookup 0 name with
      | some v =>
        rw [hv] at hfind
        exact .inl ⟨0, v, none, Store.findIn_of_some hv, hfind, hv, rfl⟩
      | none =>
        rw [hv] at hfind
        exact .inr ⟨Store.findIn_of_none hv, hfind⟩

theorem Sees.readName (h : Sees w scopes view)
    (hw : Related (tableOf depths) limit w)
    (hid : depths[id]? = (scopes.expecting view.pending).depth? name) :
    Simulates (tableOf depths) limit false w
      (Run.readName (Access.byDepth depths) id name)
      (Lexical.readName view name)
      (SameValue (tableOf depths) limit) := by
  have hrun := Run.readName_apply (.byDepth depths) id name w.machine
  have hrun' := Lexical.readName_apply view name w.memory
  obtain ⟨scope, v, location, hfind, hfind', hv, -⟩ | ⟨hfind, hfind'⟩ :=
    h.find hw hid
  · rw [hfind] at hrun
    rw [hfind'] at hrun'
    exact .of_ok w hrun hrun' hw (.refl _ _)
      ⟨rfl, hw.faithful scope name v hv⟩
  · rw [hfind] at hrun
    rw [hfind'] at hrun'
    exact .of_error (.fault (.undefined name) none) hrun hrun' hw

-- ============================================================== writing

/-- The world with a new value for a name that is bound. -/
def World.assign (w : World) (location : Option Nat) (scope : Nat)
    (name : String) (v : Value) : World :=
  ⟨{ w.machine with store := w.machine.store.bind scope name v },
    w.memory.store location name v.unclosed, w.places⟩

theorem Extends.assign (w : World) (location : Option Nat) (scope : Nat)
    (name : String) (v : Value) :
    Extends false w (w.assign location scope name v) :=
  ⟨rfl, by simp [World.assign], ⟨[], by simp [World.assign], nofun⟩,
    fun _ _ h => by cases location <;> exact h⟩

section Changes

variable {table : Table} {v : Value}

/-- A global may get a value, whether it is defined or not. -/
theorem Related.assignGlobal (hw : Related table limit w)
    (hv : FaithfulValue table limit (w.assign none 0 name v) v) :
    Related table limit (w.assign none 0 name v) := by
  have hext := Extends.assign w none 0 name v
  have hlookup := Store.lookup_bind hw.size name v
  have hlocal {scope : Nat} {other : String} (hscope : scope ≠ 0) :
      (w.assign none 0 name v).machine.store.lookup scope other
        = w.machine.store.lookup scope other := by
    rw [World.assign, hlookup, if_neg fun h => hscope h.1]
  refine { hw with
    size := by simpa [World.assign] using hw.size
    bound := fun scope other => ?_
    cells := fun ℓ scope other v' hplace hv' => ?_
    globals := ?_
    faithful := fun scope other v' hv' => ?_ }
  · show (scope, other) ∈ w.places ↔ _
    rw [hw.bound]
    constructor
    · rintro ⟨hscope, h⟩
      exact ⟨hscope, by rwa [hlocal hscope]⟩
    · rintro ⟨hscope, h⟩
      exact ⟨hscope, by rwa [hlocal hscope] at h⟩
  · replace hplace : w.places[ℓ]? = some (scope, other) := hplace
    have hscope := ((hw.bound _ _).1 (List.mem_of_getElem? hplace)).1
    rw [hlocal hscope] at hv'
    exact hw.cells ℓ scope other v' hplace hv'
  · show w.memory.globals.put name v.unclosed = _
    rw [World.assign, Store.bindings_bind, if_pos ⟨rfl, hw.size⟩,
      hw.globals, Bindings.put_mapFn]
  · rw [World.assign, hlookup] at hv'
    split at hv'
    · injection hv' with hv'
      exact hv' ▸ hv
    · exact (hw.faithful _ _ _ hv').mono hext

/-- A local variable may get a new value. -/
theorem Related.assignLocal (hw : Related table limit w) {location : Nat}
    {scope : Nat} (hplace : w.places[location]? = some (scope, name))
    (hv : FaithfulValue table limit w v) :
    Related table limit (w.assign (some location) scope name v) := by
  obtain ⟨hscope, hold⟩ := (hw.bound _ _).1 (List.mem_of_getElem? hplace)
  have hext := Extends.assign w (some location) scope name v
  have hlookup :=
    Store.lookup_bind (Store.lt_size_of_lookup hold) name v
  have hlt : location < w.places.length :=
    (List.getElem?_eq_some_iff.1 hplace).1
  refine { hw with
    size := by simpa [World.assign] using hw.size
    bound := fun other otherName => ?_
    length := by simpa [World.assign, Memory.store] using hw.length
    cells := fun ℓ other otherName v' hplace' hv' => ?_
    globals := ?_
    faithful := fun other otherName v' hv' => ?_ }
  · show (other, otherName) ∈ w.places ↔ _
    rw [hw.bound, World.assign, hlookup]
    split
    · next heq => simp [heq.1, heq.2, hold]
    · rfl
  · replace hplace' : w.places[ℓ]? = some (other, otherName) := hplace'
    rw [World.assign, hlookup] at hv'
    show (w.memory.cells.set location v.unclosed)[ℓ]? = _
    -- No other cell belongs to the name in this scope.
    by_cases hsame : location = ℓ
    · subst hsame
      obtain ⟨rfl, rfl⟩ : scope = other ∧ name = otherName := by
        simpa [hplace] using hplace'
      obtain rfl : v = v' := by simpa using hv'
      rw [List.getElem?_set_self (hw.length ▸ hlt)]
    · rw [if_neg] at hv'
      · rw [List.getElem?_set_ne hsame]
        exact hw.cells ℓ other otherName v' hplace' hv'
      · rintro ⟨rfl, rfl⟩
        exact hsame ((List.getElem?_inj hlt hw.nodup).1
          (hplace.trans hplace'.symm))
  · show w.memory.globals = _
    rw [World.assign, Store.bindings_bind, if_neg fun h => hscope h.1,
      hw.globals]
  · rw [World.assign, hlookup] at hv'
    split at hv'
    · injection hv' with hv'
      exact hv' ▸ hv.mono hext
    · exact (hw.faithful _ _ _ hv').mono hext

/-- A name that a use has found may get a new value. -/
theorem Related.assign (hw : Related table limit w)
    {location : Option Nat} {scope : Nat}
    (hlocates : Locates w location scope name)
    (hv : FaithfulValue table limit w v) :
    Related table limit (w.assign location scope name v) := by
  cases location with
  | some location => exact hw.assignLocal hlocates hv
  | none =>
    obtain rfl : scope = 0 := hlocates
    exact hw.assignGlobal (hv.mono (.assign w none 0 name v))

end Changes

theorem Sees.writeName (h : Sees w scopes view)
    (hw : Related (tableOf depths) limit w)
    (hid : depths[id]? = (scopes.expecting view.pending).depth? name)
    {v : Value} (hv : FaithfulValue (tableOf depths) limit w v) :
    Simulates (tableOf depths) limit false w
      (Run.writeName (Access.byDepth depths) id name v)
      (Lexical.writeName view name v.unclosed) fun _ _ _ => True := by
  have hrun := Run.writeName_apply (.byDepth depths) id name v w.machine
  have hrun' := Lexical.writeName_apply view name v.unclosed w.memory
  obtain ⟨scope, old, location, hfind, hfind', -, hlocates⟩ |
    ⟨hfind, hfind'⟩ := h.find hw hid
  · rw [hfind] at hrun
    rw [hfind'] at hrun'
    exact .of_ok (w.assign location scope name v) hrun hrun'
      (hw.assign hlocates hv) (.assign ..) trivial
  · rw [hfind] at hrun
    rw [hfind'] at hrun'
    exact .of_error (.fault (.undefined name) none) hrun hrun' hw

end Scoping

end Lox
