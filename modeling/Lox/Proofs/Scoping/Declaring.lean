/-
Declarations in both runs. A variable, a function and a parameter are
declared alike: a new place is taken, whose name the scope did not bind,
and what follows sees the name there (`Sees.declare`). A function is
made with a new stamp, under which the lexical run keeps what the
function sees, itself among it.

# Why a new scope is needed for a call

A call declares the parameters in a scope that no environment has gone
through before (`Shows.enter`), so its places are its own.
-/
import Lox.Proofs.Scoping.Naming

namespace Lox.Scoping

open Lexical (Locals View Memory)

variable {table : Table} {limit : Nat} {w : World} {scopes : Scopes}
  {view : View} {name : String}

-- ============================================================ variables

/-- The world behind a declaration. -/
def World.declare (w : World) (view : View) (name : String) (v : Value) :
    World :=
  ⟨{ w.machine with
      store := w.machine.store.define w.machine.env name v },
    w.memory.declare view name v.unclosed,
    if view.nested then w.places ++ [(w.machine.env.scope, name)]
    else w.places⟩

theorem Sees.local_of_cons {scope : Scope} {outer : Scopes}
    (h : Sees w (scope :: outer) view) : w.machine.env.scope ≠ 0 :=
  fun hzero => nomatch (h.shows.ground _ rfl).1 hzero

/-- A name that a scope does not declare yet is not bound in it. -/
theorem Sees.notMem_of_fresh {scope : Scope} {outer : Scopes}
    (h : Sees w (scope :: outer) view)
    (hfresh : Scopes.Fresh (scope :: outer) name) :
    (w.machine.env.scope, name) ∉ w.places :=
  fun hmem => hfresh scope rfl (h.own scope rfl name hmem)

theorem Extends.declare (w : World) (view : View) (name : String)
    (v : Value) : Extends true w (w.declare view name v) := by
  refine ⟨rfl, by simp [World.declare, Store.define], ?_, ?_⟩
  · cases hnested : view.nested with
    | true =>
      refine ⟨[(w.machine.env.scope, name)], by simp [World.declare, hnested],
        fun p hp => .inr ⟨rfl, ?_⟩⟩
      rw [List.mem_singleton.1 hp]
    | false => exact ⟨[], by simp [World.declare, hnested], nofun⟩
  · intro stamp locals hcaptured
    cases hnested : view.nested <;>
      simpa [World.declare, Memory.declare, hnested] using hcaptured

/-- What follows a declaration sees the name. -/
theorem Sees.declare {table : Table} (h : Sees w scopes view)
    (hw : Related table limit w) (hpending : view.pending = none)
    (v : Value) :
    Sees (w.declare view name v) (scopes.add name)
      (view.bind name w.memory.cells.length) := by
  have hinside : (w.declare view name v).machine.env.scope
      < (w.declare view name v).machine.store.size := by
    simpa [World.declare, Store.define] using h.inside
  cases scopes with
  -- At the top level a declaration is global, and nothing local is added.
  | nil =>
    have hnested : view.nested = false := h.nested
    have hplaces : (w.declare view name v).places = w.places := by
      simp [World.declare, hnested]
    rw [View.bind, hnested]
    exact ⟨hplaces ▸ h.shows, nofun, hinside, hnested, by simp [hpending]⟩
  | cons scope outer =>
    have hnested : view.nested = true := h.nested
    have hplaces : (w.declare view name v).places
        = w.places ++ [(w.machine.env.scope, name)] := by
      simp [World.declare, hnested]
    rw [View.bind, hnested]
    refine ⟨⟨?_, ?_, ?_, ?_⟩, ?_, hinside, rfl, by simp [hpending]⟩
    · exact h.shows.length
    · intro s hs
      refine ⟨fun hzero => ?_, nofun⟩
      cases (h.shows.ground s hs).1 hzero
    · intro other depth hdepth
      rw [hplaces]
      -- The name itself is found at once, and every other one where it was.
      by_cases hname : other = name
      · subst hname
        rw [Scopes.depth?_add_self (by simp)] at hdepth
        cases hdepth
        refine ⟨w.machine.env.scope, w.memory.cells.length, rfl, by simp, ?_⟩
        rw [hw.length, List.getElem?_concat_length]
      · rw [Scopes.depth?_add_of_ne hname] at hdepth
        obtain ⟨s, location, hchain, hlocal, hplace⟩ :=
          h.shows.found _ _ hdepth
        refine ⟨s, location, hchain, ?_, ?_⟩
        · simpa [List.lookup_cons, beq_false_of_ne hname] using hlocal
        · rw [List.getElem?_append_left
            (List.getElem?_eq_some_iff.1 hplace).1, hplace]
    · intro other hdepth
      have hname : other ≠ name := by
        rintro rfl
        rw [Scopes.depth?_add_self (by simp)] at hdepth
        cases hdepth
      rw [Scopes.depth?_add_of_ne hname] at hdepth
      simpa [List.lookup_cons, beq_false_of_ne hname]
        using h.shows.global _ hdepth
    · rintro _ ⟨⟩ other hother
      rw [hplaces] at hother
      rcases List.mem_append.1 hother with hother | hother
      · exact .tail _ (h.own scope rfl other hother)
      · obtain ⟨-, rfl⟩ : _ ∧ other = name := by simpa using hother
        exact List.mem_cons_self

/-- A declaration leaves the runs related. What is declared may be a
function that sees the declaration itself. -/
theorem Related.declare {table : Table} (hw : Related table limit w)
    (h : Sees w scopes view) (hfresh : scopes.Fresh name) {v : Value}
    (hv : FaithfulValue table limit (w.declare view name v) v) :
    Related table limit (w.declare view name v) := by
  have hext := Extends.declare w view name v
  cases scopes with
  | nil =>
    -- At the top level this is the assignment of a global.
    have hnested : view.nested = false := h.nested
    have hground : w.machine.env.scope = 0 := (h.shows.ground _ rfl).2 rfl
    have heq : w.declare view name v = w.assign none 0 name v := by
      simp [World.declare, World.assign, Memory.declare, Memory.store,
        Store.define, hnested, hground]
    rw [heq] at hv ⊢
    exact hw.assignGlobal hv
  | cons scope outer =>
    have hnested : view.nested = true := h.nested
    have habsent := h.notMem_of_fresh hfresh
    have hscope := h.local_of_cons
    have hlookup := Store.lookup_bind h.inside name v
    have hplaces : (w.declare view name v).places
        = w.places ++ [(w.machine.env.scope, name)] := by
      simp [World.declare, hnested]
    have hmemory : (w.declare view name v).memory
        = { w.memory with cells := w.memory.cells ++ [v.unclosed] } := by
      simp [World.declare, Memory.declare, hnested]
    refine {
      size := by simpa [World.declare, Store.define] using hw.size
      nodup := ?_
      bound := fun other otherName => ?_
      length := by rw [hplaces, hmemory]; simpa using hw.length
      cells := fun ℓ other otherName v' hplace hv' => ?_
      globals := ?_
      faithful := fun other otherName v' hv' => ?_
      stamps := by rw [hmemory]; exact hw.stamps
      nextStamp := by rw [hmemory]; exact hw.nextStamp
      output := by rw [hmemory]; exact hw.output
      clock := by rw [hmemory]; exact hw.clock }
    -- The place is new, for a fresh name is not bound in the scope.
    · rw [hplaces, List.nodup_append]
      refine ⟨hw.nodup, by simp, fun p hp q hq heq => habsent ?_⟩
      rw [← List.mem_singleton.1 hq, ← heq]
      exact hp
    · rw [hplaces, List.mem_append, hw.bound, World.declare, Store.define,
        hlookup]
      by_cases heq : other = w.machine.env.scope ∧ otherName = name
      · simp [heq.1, heq.2, hscope]
      · simp [heq]
    · rw [World.declare, Store.define, hlookup] at hv'
      rw [hplaces] at hplace
      rw [hmemory]
      -- The cell is an old one, or the one that was added.
      rcases Nat.lt_or_ge ℓ w.places.length with hlt | hge
      · rw [List.getElem?_append_left hlt] at hplace
        have hne : ¬(other = w.machine.env.scope ∧ otherName = name) := by
          rintro ⟨rfl, rfl⟩
          exact habsent (List.mem_of_getElem? hplace)
        rw [if_neg hne] at hv'
        show (w.memory.cells ++ [v.unclosed])[ℓ]? = _
        rw [List.getElem?_append_left (hw.length ▸ hlt)]
        exact hw.cells ℓ other otherName v' hplace hv'
      · obtain ⟨hℓ, heq⟩ : ℓ - w.places.length = 0 ∧
            (w.machine.env.scope, name) = (other, otherName) := by
          rw [List.getElem?_append_right hge] at hplace
          simpa [List.getElem?_singleton] using hplace
        obtain rfl : ℓ = w.memory.cells.length := by
          have := hw.length
          omega
        cases heq
        rw [if_pos ⟨rfl, rfl⟩] at hv'
        cases hv'
        exact List.getElem?_concat_length ..
    · rw [hmemory, World.declare, Store.define, Store.bindings_bind,
        if_neg fun heq => hscope heq.1]
      exact hw.globals
    · rw [World.declare, Store.define, hlookup] at hv'
      split at hv'
      · injection hv' with hv'
        exact hv' ▸ hv
      · exact (hw.faithful _ _ _ hv').mono hext

/-- A variable gets its first value in both runs. -/
theorem Sees.define (h : Sees w scopes view)
    (hw : Related table limit w) (hpending : view.pending = none)
    (hfresh : scopes.Fresh name) {v : Value}
    (hv : FaithfulValue table limit w v) :
    Simulates table limit true w (Run.define name v)
      (Lexical.declare view name v.unclosed) fun w' _ view' =>
        Sees w' (scopes.add name) view' ∧ view'.pending = none := by
  have hext := Extends.declare w view name v
  refine .of_ok (w.declare view name v) (a := ())
    (b := view.bind name w.memory.cells.length) rfl rfl
    (hw.declare h hfresh (hv.mono hext)) hext
    ⟨h.declare hw hpending v, ?_⟩
  unfold View.bind
  split <;> exact hpending

-- ============================================================ functions

/-- The world in which the next stamp is taken, for a function that sees
these names. -/
def World.capture (w : World) (locals : Locals) : World :=
  ⟨{ w.machine with nextStamp := w.machine.nextStamp + 1 },
    { w.memory with
      nextStamp := w.memory.nextStamp + 1
      captured := (w.memory.nextStamp, locals) :: w.memory.captured },
    w.places⟩

theorem Extends.capture (hw : Related table limit w) (locals : Locals) :
    Extends false w (w.capture locals) := by
  refine ⟨rfl, Nat.le_refl _, ⟨[], by simp [World.capture], nofun⟩, ?_⟩
  intro stamp others h
  have hfresh := hw.stamps w.memory.nextStamp (Nat.le_refl _)
  exact Lexical.Memory.lookup_capture_of_lookup hfresh locals h

theorem Related.capture (hw : Related table limit w) (locals : Locals) :
    Related table limit (w.capture locals) := by
  have hext := Extends.capture hw locals
  refine { hw with
    faithful := fun scope name v hv => (hw.faithful scope name v hv).mono hext
    stamps := fun stamp hstamp => ?_
    nextStamp := by simpa [World.capture] using hw.nextStamp }
  have hlt : w.memory.nextStamp < stamp := hstamp
  show (w.memory.capture locals).captured.lookup stamp = none
  rw [Lexical.Memory.lookup_capture_of_ne (Nat.ne_of_gt hlt)]
  exact hw.stamps stamp (Nat.le_of_lt hlt)

/-- A function is made and declared in both runs. -/
theorem Sees.defineFunction (h : Sees w scopes view)
    (hw : Related table limit w) (hpending : view.pending = none)
    (hfresh : scopes.Fresh name) {params : List String}
    {body : List Stmt} (hparams : params.Nodup)
    (hplaced : Stmt.AllPlaced table limit
      (params.reverse :: scopes.add name) body) :
    Simulates table limit true w
      (do let stamp ← Run.freshStamp
          let closure ← Run.current
          Run.define name (.function ⟨stamp, name, params, body, closure⟩))
      (Lexical.declareFunction view name params body) fun w' _ view' =>
        Sees w' (scopes.add name) view' ∧ view'.pending = none := by
  have hstamp : w.memory.nextStamp = w.machine.nextStamp := hw.nextStamp
  let captured := w.capture (view.bind name w.memory.cells.length).locals
  let f : Function :=
    ⟨w.machine.nextStamp, name, params, body, w.machine.env⟩
  have hext := Extends.capture hw
    (view.bind name w.memory.cells.length).locals
  have hcaptured : Related table limit captured := hw.capture _
  have hsees : Sees captured scopes view := h.mono hext
  have hsees' : Sees (captured.declare view name (.function f))
      (scopes.add name) (view.bind name captured.memory.cells.length) :=
    hsees.declare hcaptured hpending (.function f)
  -- What the function sees is what follows its declaration sees.
  have hfaithful : FaithfulValue table limit
      (captured.declare view name (.function f)) (.function f) := by
    rintro _ ⟨⟩
    refine ⟨scopes.add name, (view.bind name w.memory.cells.length).locals,
      ?_, hsees'.shows, hparams, hplaced⟩
    have hlookup : captured.memory.captured.lookup f.stamp
        = some (view.bind name w.memory.cells.length).locals := by
      simp [captured, World.capture, f, hstamp]
    exact (Extends.declare captured view name _).captured _ _ hlookup
  refine .of_ok (captured.declare view name (.function f)) (a := ())
    (b := view.bind name w.memory.cells.length) rfl ?_
    (hcaptured.declare hsees hfresh hfaithful)
    ((hext.weaken nofun).trans (Extends.declare captured view name _))
    ⟨hsees', ?_⟩
  · show EStateM.Result.ok (view.bind name w.memory.cells.length)
      (captured.memory.declare view name (.function ⟨w.memory.nextStamp,
        name, params, body, .globals⟩)) = _
    rw [hstamp]
    rfl
  · unfold View.bind
    split <;> exact hpending

-- ================================================================ scopes

/-- A new scope binds nothing yet, and shows what is around it. -/
theorem Shows.enter {parent : Env} {locals : Locals}
    (h : Shows w.places scopes parent.chain locals)
    (hw : Related table limit w) :
    Sees (w.grow.at ⟨w.machine.store.size, parent.chain⟩) ([] :: scopes)
      ⟨locals, true, none⟩ := by
  refine ⟨⟨?_, ?_, ?_, ?_⟩, ?_, ?_, rfl, ?_⟩
  · simpa [World.at, Env.chain] using h.length
  · rintro _ ⟨⟩
    refine iff_of_false (Nat.ne_of_gt hw.size) ?_
    rintro ⟨⟩
  · intro name depth hdepth
    rw [Scopes.depth?_cons] at hdepth
    simp only [List.not_mem_nil, if_false, Option.map_eq_some_iff] at hdepth
    obtain ⟨outer, houter, rfl⟩ := hdepth
    exact h.found name outer houter
  · intro name hdepth
    rw [Scopes.depth?_cons] at hdepth
    simp only [List.not_mem_nil, if_false, Option.map_eq_none_iff] at hdepth
    exact h.global name hdepth
  · intro scope _ name hname
    obtain ⟨-, hbound⟩ := (hw.bound _ _).1 hname
    exact absurd (Store.lt_size_of_lookup hbound) (Nat.lt_irrefl _)
  · simp [World.at, World.grow]
  · rintro name ⟨⟩

/-- Parameters are declared one after another in both runs. -/
theorem Sees.defineAll {scope : Scope} {outer : Scopes}
    {named : List (String × Value)} {w : World} {view : View}
    (h : Sees w (scope :: outer) view) (hw : Related table limit w)
    (hpending : view.pending = none)
    (hnodup : (named.map Prod.fst).Nodup)
    (hfresh : ∀ name ∈ named.map Prod.fst, name ∉ scope)
    (hvalues : ∀ v ∈ named.map Prod.snd, FaithfulValue table limit w v) :
    Simulates table limit true w (Run.defineAll w.machine.env named)
      (Lexical.declareAll view (named.map fun p => (p.1, p.2.unclosed)))
      fun w' _ view' =>
        Sees w' (((named.map Prod.fst).reverse ++ scope) :: outer) view' ∧
          view'.pending = none := by
  induction named generalizing scope w view with
  | nil => exact .pure hw ⟨h, hpending⟩
  | cons p named ih =>
    obtain ⟨name, v⟩ := p
    rw [List.map_cons, List.nodup_cons] at hnodup
    rw [List.map_cons, List.forall_mem_cons] at hfresh hvalues
    have hrun : (do Run.define name v; Run.defineAll w.machine.env named)
        w.machine = Run.defineAll w.machine.env ((name, v) :: named)
          w.machine := rfl
    have hfirst : Scopes.Fresh (scope :: outer) name := by
      rintro _ ⟨⟩
      exact hfresh.1
    refine Simulates.congr hrun rfl (Simulates.bind
      (h.define hw hpending hfirst hvalues.1)
      fun w' _ view' hw' hext' ⟨h', hpending'⟩ => ?_)
    have hnext := ih h' hw' hpending' hnodup.2 (fun other hother hmem => ?_)
      fun v' hv' => (hvalues.2 v' hv').mono hext'
    · rw [hext'.env] at hnext
      simpa using hnext
    · rcases List.mem_cons.1 hmem with rfl | hmem
      · exact hnodup.1 hother
      · exact hfresh.2 other hother hmem

/-- The parameters of a call are declared in a scope of their own, behind
what the function sees. -/
theorem Shows.parameters {f : Function} {args : List Value}
    {locals : Locals}
    (h : Shows w.places scopes f.closure.chain locals)
    (hw : Related table limit w) (hparams : f.params.Nodup)
    (hargs : ∀ a ∈ args, FaithfulValue table limit w a)
    (harity : args.length = f.params.length) :
    Simulates table limit true
      (w.grow.at ⟨w.machine.store.size, f.closure.chain⟩)
      (Run.defineAll ⟨w.machine.store.size, f.closure.chain⟩
        (f.params.zip args))
      (Lexical.declareAll ⟨locals, true, none⟩
        ((f.params.zip args).map fun p => (p.1, p.2.unclosed)))
      fun w' _ view =>
        Sees w' (f.params.reverse :: scopes) view ∧ view.pending = none := by
  have hzip : (f.params.zip args).map Prod.fst = f.params :=
    List.map_fst_zip (Nat.le_of_eq harity.symm)
  have hnodup : ((f.params.zip args).map Prod.fst).Nodup := by rwa [hzip]
  have hvalues : ∀ v ∈ (f.params.zip args).map Prod.snd,
      FaithfulValue table limit w v := by
    rw [List.map_snd_zip (Nat.le_of_eq harity)]
    exact hargs
  have hdeclared := (h.enter hw).defineAll (hw.grow.at _) rfl hnodup nofun
    hvalues
  rw [hzip, List.append_nil] at hdeclared
  exact hdeclared

end Lox.Scoping
