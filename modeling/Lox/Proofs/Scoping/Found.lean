/-
What the table promises of every moment of a session. A variable with an
entry is bound where the entry leads, and so is a local variable that is
assigned, unless the assignment is part of its own initializer, where
the scope is there and the name is not.

Every moment that a run reaches is one that the lexical run could stand
beside (`Sound`): this holds at the start of a unit, and what a moment
begins keeps it, because all parts that have ended in between have ended
alike in both runs.
-/
import Mathlib
import Lox.Proofs.Run.Moments
import Lox.Proofs.Scoping.Sessions

namespace Lox

/-- The current environment has so many scopes around its own, and the
one so far out binds the name. -/
def Machine.Binds (m : Machine) (depth : Nat) (name : String) : Prop :=
  depth ≤ m.env.depth ∧ ∃ env v, m.env.ancestor depth = .ok env ∧
    m.store.lookup env.scope name = some v

namespace Scoping

open Lexical (Locals View Memory)
open Run

variable {depths : Depths} {limit rounds : Nat}

-- ================================================================ fitting

/-- The task is bound at what can be seen in the world. -/
def Fits (table : Table) (limit : Nat) (w : World) (scopes : Scopes)
    (pending : Option String) : Task → Prop
  | .evaluate e => e.Bound table (scopes.expecting pending) pending
  | .evaluateAll es => Expr.AllBound table (scopes.expecting pending) pending es
  | .store node name v =>
      table node.id = (scopes.expecting pending).depth? name ∧
        FaithfulValue table limit w v
  | .call f args =>
      FaithfulValue table limit w f ∧
        ∀ a ∈ args, FaithfulValue table limit w a
  | .perform hand _ => ∀ v ∈ hand, FaithfulValue table limit w v
  | .execute s => pending = none ∧ s.Placed table limit scopes
  | .executeAll ss => pending = none ∧ Stmt.AllPlaced table limit scopes ss
  | .loop test body _ =>
      pending = none ∧ test.Bound table scopes none ∧
        body.declares = false ∧ body.Placed table limit scopes

/-- The lexical run could be at this moment too, and see what the task
needs. -/
def Sound (table : Table) (limit : Nat) (t : Moment) : Prop :=
  ∃ memory places scopes view,
    Related table limit ⟨t.machine, memory, places⟩ ∧
      Sees ⟨t.machine, memory, places⟩ scopes view ∧
      view.pending = t.initializing ∧
      Fits table limit ⟨t.machine, memory, places⟩ scopes t.initializing
        t.task

/-- The world that a run with a result has led to. -/
theorem Simulates.world {α β : Type} {table : Table} {declares : Bool}
    {w : World} {run : Run α} {run' : RunOn Memory β}
    {post : World → α → β → Prop} {a : α} {m : Machine}
    (h : Simulates table limit declares w run run' post)
    (hrun : run w.machine = .ok a m) :
    ∃ memory places b, Related table limit ⟨m, memory, places⟩ ∧
      Extends declares w ⟨m, memory, places⟩ ∧
      post ⟨m, memory, places⟩ a b := by
  unfold Simulates at h
  rw [hrun] at h
  split at h
  · next b memory heq _ =>
    cases heq
    obtain ⟨places, hw, hext, hpost⟩ := h
    exact ⟨memory, places, b, hw, hext, hpost⟩
  · next heq _ => cases heq
  · exact h.elim

/-- Without a name that is pending, the same can be seen. -/
theorem Sees.settled {w : World} {scopes : Scopes} {view : View}
    (h : Sees w scopes view) :
    Sees w scopes { view with pending := none } :=
  ⟨h.shows, h.own, h.inside, h.nested, nofun⟩

/-- A variable is local where it is nested. -/
theorem Sees.pending_initializing {w : World} {scopes : Scopes} {view : View}
    (h : Sees w scopes view) (name : String) :
    (view.initializing name).pending = w.machine.localVariable name := by
  have hlength := h.shows.length
  have hground := h.shows.ground _ rfl
  have hnested := h.nested
  cases scopes with
  | nil =>
    -- A chain of one scope is that of the globals.
    have henv : w.machine.env = .globals := by
      rcases henv : w.machine.env with ⟨scope, enclosing⟩
      rw [henv] at hlength hground
      have hscope : scope = 0 := hground.2 rfl
      have henclosing : enclosing = [] := by simpa [Env.chain] using hlength
      rw [hscope, henclosing]
      rfl
    have hglobals : w.machine.atGlobals = true := by
      simp [Machine.atGlobals, henv]
    simp [View.initializing, hnested, Machine.localVariable, hglobals]
  | cons scope outer =>
    have hglobals : w.machine.atGlobals = false := by
      refine Bool.eq_false_iff.2 fun heq => ?_
      have henv : w.machine.env = .globals := by
        simpa [Machine.atGlobals] using heq
      rw [henv] at hground
      cases hground.1 rfl
    simp [View.initializing, hnested, Machine.localVariable, hglobals]

-- ============================================================= one step

section Steps

variable {m : Machine} {memory : Memory} {places : List Place}
  {scopes : Scopes} {view : View} {room : Nat} {e : Expr}

/-- Behind an expression the same can be seen, from related moments. -/
theorem evaluated {v : Value} {m' : Machine}
    (hw : Related (tableOf depths) limit ⟨m, memory, places⟩)
    (hsees : Sees ⟨m, memory, places⟩ scopes view)
    (hbound : e.Bound (tableOf depths) (scopes.expecting view.pending)
      view.pending)
    (hrun : evaluate (settingOf depths rounds) room e m = .ok v m') :
    ∃ memory' places',
      Related (tableOf depths) limit ⟨m', memory', places'⟩ ∧
      Sees ⟨m', memory', places'⟩ scopes view ∧
      Extends false ⟨m, memory, places⟩ ⟨m', memory', places'⟩ ∧
      FaithfulValue (tableOf depths) limit ⟨m', memory', places'⟩ v := by
  obtain ⟨memory', places', _, hw', hext, -, hv⟩ :=
    ((agree depths limit rounds room).evaluate hw hsees hbound).world hrun
  exact ⟨memory', places', hw', hsees.mono hext, hext, hv⟩

/-- Behind some expressions the values are faithful, from related
moments. -/
theorem allEvaluated {es : List Expr} {vs : List Value} {m' : Machine}
    (hw : Related (tableOf depths) limit ⟨m, memory, places⟩)
    (hsees : Sees ⟨m, memory, places⟩ scopes view)
    (hbound : Expr.AllBound (tableOf depths) (scopes.expecting view.pending)
      view.pending es)
    (hrun : each (evaluate (settingOf depths rounds) room) es m
      = .ok vs m') :
    ∃ memory' places',
      Related (tableOf depths) limit ⟨m', memory', places'⟩ ∧
      Extends false ⟨m, memory, places⟩ ⟨m', memory', places'⟩ ∧
      ∀ v ∈ vs, FaithfulValue (tableOf depths) limit
        ⟨m', memory', places'⟩ v := by
  have hall := Expr.allBound_iff.1 hbound
  have heach := Simulates.each hw fun e he w' hw' hext' =>
    (agree depths limit rounds room).evaluate hw' (hsees.mono hext')
      (hall e he)
  obtain ⟨memory', places', _, hw', hext, -, hvs⟩ := heach.world hrun
  exact ⟨memory', places', hw', hext, hvs⟩

/-- Behind a statement that has not returned, what it declared can be
seen. -/
theorem executed {s : Stmt} {m' : Machine}
    (hw : Related (tableOf depths) limit ⟨m, memory, places⟩)
    (hsees : Sees ⟨m, memory, places⟩ scopes view)
    (hpending : view.pending = none)
    (hplaced : s.Placed (tableOf depths) limit scopes)
    (hrun : execute (settingOf depths rounds) room s m = .ok .normal m') :
    ∃ memory' places' view',
      Related (tableOf depths) limit ⟨m', memory', places'⟩ ∧
      Sees ⟨m', memory', places'⟩ (s.scopesAfter scopes) view' ∧
      view'.pending = none := by
  obtain ⟨memory', places', ⟨_, view'⟩, hw', -, -, hsees', hpending'⟩ :=
    ((agree depths limit rounds room).execute hw hsees hpending
      hplaced).world hrun
  exact ⟨memory', places', view', hw', hsees', hpending'⟩

end Steps

/-- What a sound moment begins is a sound moment. -/
theorem Sound.begins {t t' : Moment} (h : Sound (tableOf depths) limit t)
    (hbegins : Begins (settingOf depths rounds) t t') :
    Sound (tableOf depths) limit t' := by
  obtain ⟨memory, places, scopes, view, hw, hsees, hpending, hfits⟩ := h
  -- What was run on the way has left another world, in which the same is seen.
  cases hbegins with
  | assigned | left | first | callee | firstArg =>
    exact ⟨memory, places, scopes, view, hw, hsees, hpending, hfits.1⟩
  | inner | operand =>
    exact ⟨memory, places, scopes, view, hw, hsees, hpending, hfits⟩
  | store hrun =>
    subst hpending
    obtain ⟨memory', places', hw', hsees', -, hv⟩ :=
      evaluated hw hsees hfits.1 hrun
    exact ⟨memory', places', scopes, view, hw', hsees', rfl, hfits.2, hv⟩
  | right hrun | second hrun _ | args hrun _ | moreArgs hrun =>
    subst hpending
    obtain ⟨memory', places', hw', hsees', -, -⟩ :=
      evaluated hw hsees hfits.1 hrun
    exact ⟨memory', places', scopes, view, hw', hsees', rfl, hfits.2⟩
  | call hcallee _ hargs =>
    subst hpending
    obtain ⟨memory₁, places₁, hw₁, hsees₁, -, hf⟩ :=
      evaluated hw hsees hfits.1 hcallee
    obtain ⟨memory₂, places₂, hw₂, hext₂, hvalues⟩ :=
      allEvaluated hw₁ hsees₁ hfits.2 hargs
    exact ⟨memory₂, places₂, scopes, { view with pending := none }, hw₂,
      (hsees₁.mono hext₂).settled, rfl, hf.mono hext₂, hvalues⟩
  | body harity =>
    obtain ⟨hf, hargs⟩ := hfits
    obtain ⟨_, locals, -, hshows, hparams, hplaced⟩ := hf _ rfl
    have hdeclared := hshows.parameters hw hparams hargs harity
    obtain ⟨memory', places', view', hw', -, hsees', hpending'⟩ :=
      hdeclared.world rfl
    exact ⟨memory', places', _, view', hw', hsees', hpending', rfl, hplaced⟩
  | native _ =>
    exact ⟨memory, places, scopes, { view with pending := none }, hw,
      hsees.settled, rfl, hfits.2⟩
  | looked =>
    obtain ⟨memory', places', _, hw', hext, -⟩ :=
      (readClock_agrees hw).world rfl
    exact ⟨memory', places', scopes, { view with pending := none }, hw',
      (hsees.mono hext).settled, rfl, fun v hv => (hfits v hv).mono hext⟩
  | @printed _ _ _ _ line =>
    obtain ⟨memory', places', _, hw', hext, -⟩ :=
      (printLine_agrees hw line).world rfl
    exact ⟨memory', places', scopes, { view with pending := none }, hw',
      (hsees.mono hext).settled, rfl, fun v hv => (hfits v hv).mono hext⟩
  | @asked _ _ _ _ f args =>
    exact ⟨memory, places, scopes, { view with pending := none }, hw,
      hsees.settled, rfl, f.value_of_forall Plain.faithful hfits,
      Handed.values_of_forall Plain.faithful hfits args⟩
  | @answered _ _ room _ _ f args _ _ hrun =>
    obtain ⟨memory', places', _, hw', hext, -, hv⟩ :=
      ((agree depths limit rounds room).call hw
        (f.value_of_forall Plain.faithful hfits)
        (Handed.values_of_forall Plain.faithful hfits args)).world hrun
    exact ⟨memory', places', scopes, { view with pending := none }, hw',
      (hsees.mono hext).settled, rfl, List.forall_mem_append.2
        ⟨fun u hu => (hfits u hu).mono hext, List.forall_mem_singleton.2 hv⟩⟩
  | expr | print =>
    obtain ⟨rfl, hplaced⟩ := hfits
    exact ⟨memory, places, scopes, view, hw, hsees, hpending, hplaced.bound⟩
  | @initializer m room init node name e =>
    obtain ⟨rfl, hplaced⟩ := hfits
    obtain ⟨hfresh, hinit⟩ := hplaced.bound
    have hname := hsees.pending_initializing name.text
    have hbound := hsees.bound_initializing (hinit e rfl)
    rw [hname] at hbound
    exact ⟨memory, places, scopes, view.initializing name.text, hw,
      hsees.initializing hfresh, hname, hbound⟩
  | block =>
    obtain ⟨rfl, hplaced⟩ := hfits
    exact ⟨memory, places, _, _, hw.grow.at _, hsees.shows.enter hw, rfl, rfl,
      hplaced.block⟩
  | test =>
    obtain ⟨rfl, hplaced⟩ := hfits
    exact ⟨memory, places, scopes, view, hw, hsees, hpending, hplaced.test⟩
  | yes hrun _ =>
    obtain ⟨rfl, hplaced⟩ := hfits
    obtain ⟨memory', places', hw', hsees', -, -⟩ :=
      evaluated hw hsees (hpending ▸ hplaced.test) hrun
    exact ⟨memory', places', scopes, view, hw', hsees', hpending, rfl,
      hplaced.yes.2⟩
  | no hrun _ =>
    obtain ⟨rfl, hplaced⟩ := hfits
    obtain ⟨memory', places', hw', hsees', -, -⟩ :=
      evaluated hw hsees (hpending ▸ hplaced.test) hrun
    exact ⟨memory', places', scopes, view, hw', hsees', hpending, rfl,
      hplaced.no.2⟩
  | loop =>
    obtain ⟨rfl, hplaced⟩ := hfits
    exact ⟨memory, places, scopes, view, hw, hsees, hpending, rfl,
      hplaced.bound.1, hplaced.round⟩
  | loopTest =>
    obtain ⟨rfl, htest, -⟩ := hfits
    exact ⟨memory, places, scopes, view, hw, hsees, hpending, htest⟩
  | loopBody hrun _ =>
    obtain ⟨rfl, htest, -, hround⟩ := hfits
    obtain ⟨memory', places', hw', hsees', -, -⟩ :=
      evaluated hw hsees (hpending ▸ htest) hrun
    exact ⟨memory', places', scopes, view, hw', hsees', hpending, rfl, hround⟩
  | again hrun _ hbody =>
    obtain ⟨rfl, htest, hplain, hround⟩ := hfits
    obtain ⟨memory₁, places₁, hw₁, hsees₁, -, -⟩ :=
      evaluated hw hsees (hpending ▸ htest) hrun
    obtain ⟨memory₂, places₂, view₂, hw₂, hsees₂, hpending₂⟩ :=
      executed hw₁ hsees₁ hpending hround hbody
    -- The body declares nothing, so the next round sees what this one saw.
    rw [Stmt.scopesAfter_of_not_declares hplain] at hsees₂
    exact ⟨memory₂, places₂, scopes, view₂, hw₂, hsees₂, hpending₂, rfl,
      htest, hplain, hround⟩
  | ret =>
    obtain ⟨rfl, hplaced⟩ := hfits
    exact ⟨memory, places, scopes, view, hw, hsees, hpending,
      hplaced.bound _ rfl⟩
  | firstStmt =>
    obtain ⟨rfl, hplaced⟩ := hfits
    exact ⟨memory, places, scopes, view, hw, hsees, hpending, rfl,
      hplaced.head⟩
  | moreStmts hrun =>
    obtain ⟨rfl, hplaced⟩ := hfits
    obtain ⟨memory', places', view', hw', hsees', hpending'⟩ :=
      executed hw hsees hpending hplaced.head hrun
    exact ⟨memory', places', _, view', hw', hsees', hpending', rfl,
      hplaced.tail⟩

/-- Whatever a sound moment reaches is sound. -/
theorem Sound.reaches {t t' : Moment} (h : Sound (tableOf depths) limit t)
    (hreaches : Reaches (settingOf depths rounds) t t') :
    Sound (tableOf depths) limit t' := by
  induction hreaches with
  | refl => exact h
  | tail _ hbegins ih => exact ih.begins hbegins

-- ============================================================ at a moment

/-- A name that the scopes declare is bound where they say. -/
theorem Sees.binds {m : Machine} {memory : Memory} {places : List Place}
    {scopes : Scopes} {view : View} {name : String} {depth : Nat}
    (hsees : Sees ⟨m, memory, places⟩ scopes view)
    (hw : Related (tableOf depths) limit ⟨m, memory, places⟩)
    (hname : view.pending ≠ some name)
    (hdepth : scopes.depth? name = some depth) :
    m.Binds depth name ∧
      ∃ scope v, m.store.reachAt m.env depth name = .ok (scope, v) := by
  obtain ⟨scope, v, location, hchain, hv, -, -⟩ :=
    hsees.find_local hw hname hdepth
  obtain ⟨enclosing, hancestor⟩ := Env.ancestor_of_chain hchain
  refine ⟨⟨Env.le_depth_of_ancestor hancestor, _, v, hancestor, hv⟩,
    scope, v, ?_⟩
  rw [Store.reachAt_of_chain hchain, Store.findIn_of_some hv]

/-- A variable with an entry is bound where the entry leads. -/
theorem Sound.reads {t : Moment} (h : Sound (tableOf depths) limit t)
    {node : Node} {name : String} {depth : Nat}
    (htask : t.task = .evaluate (.var node name))
    (hentry : depths[node.id]? = some depth) :
    t.machine.Binds depth name ∧
      ∃ v, readName (.byDepth depths) node.id name t.machine
        = .ok v t.machine := by
  obtain ⟨memory, places, scopes, view, hw, hsees, hpending, hfits⟩ := h
  rw [htask] at hfits
  obtain ⟨hname, hid⟩ := hfits
  rw [Scopes.depth?_expecting hname, tableOf, hentry] at hid
  obtain ⟨hbinds, scope, v, hreach⟩ :=
    hsees.binds hw (hpending ▸ hname) hid.symm
  refine ⟨hbinds, v, ?_⟩
  show (ofExcept ((Access.byDepth depths).find t.machine.store t.machine.env
    node.id name) >>= fun p => pure p.2) t.machine = _
  simp only [Access.byDepth, hentry]
  rw [hreach]
  rfl

/-- An assignment with an entry finds the scope, and in it the name,
unless it is part of the initializer of the variable itself. -/
theorem Sound.writes {t : Moment} (h : Sound (tableOf depths) limit t)
    {node : Node} {name : String} {v : Value} {depth : Nat}
    (htask : t.task = .store node name v)
    (hentry : depths[node.id]? = some depth) :
    (t.initializing ≠ some name →
      t.machine.Binds depth name ∧
        ∃ m, writeName (.byDepth depths) node.id name v t.machine
          = .ok () m) ∧
    (t.initializing = some name →
      depth = 0 ∧
        t.machine.store.lookup t.machine.env.scope name = none ∧
        writeName (.byDepth depths) node.id name v t.machine
          = .error (.fault (.undefined name) none) t.machine) := by
  obtain ⟨memory, places, scopes, view, hw, hsees, hpending, hfits⟩ := h
  rw [htask] at hfits
  obtain ⟨hid, -⟩ := hfits
  rw [tableOf, hentry] at hid
  have hwrite : writeName (.byDepth depths) node.id name v t.machine
      = (ofExcept (t.machine.store.reachAt t.machine.env depth name)
        >>= fun p => modify fun m =>
          { m with store := m.store.bind p.1 name v }) t.machine := by
    show (ofExcept ((Access.byDepth depths).find t.machine.store
      t.machine.env node.id name) >>= _) t.machine = _
    simp only [Access.byDepth, hentry]
  constructor
  · intro hname
    rw [Scopes.depth?_expecting hname] at hid
    obtain ⟨hbinds, scope, old, hreach⟩ :=
      hsees.binds hw (hpending ▸ hname) hid.symm
    refine ⟨hbinds, { t.machine with
      store := t.machine.store.bind scope name v }, ?_⟩
    rw [hwrite, hreach]
    rfl
  · intro hname
    have hview := hpending.trans hname
    -- The initializer is resolved with its own variable in the innermost scope.
    obtain ⟨hscopes, -⟩ := hsees.pending name hview
    rw [hname, Scopes.expecting, Option.elim_some,
      Scopes.depth?_add_self hscopes] at hid
    cases hid
    obtain ⟨hlookup, -⟩ := hsees.find_pending hw hview
    have hchain : t.machine.env.chain[0]? = some t.machine.env.scope := rfl
    refine ⟨rfl, hlookup, ?_⟩
    rw [hwrite, Store.reachAt_of_chain hchain, Store.findIn_of_none hlookup]
    rfl

end Scoping

-- =============================================================== sessions

/-- A moment of the run of a unit, by the table that the session then
has. -/
def Session.AtMoment (s : Session) (source : String) (depths : Depths)
    (t : Moment) : Prop :=
  ∃ program uses nextId, s.Accepts source program uses nextId ∧
    depths = s.depths.record uses ∧
    Reaches ⟨.byDepth depths, roundBound⟩
      ⟨s.machine, nestingRoom, none, .executeAll program⟩ t

/-- Beside a lexical session, every moment is one that the lexical run
could be at too. -/
theorem Scoping.Paired.sound {s : Session} {l : Lexical.Session}
    (h : Paired s l) {source : String} {depths : Depths} {t : Moment}
    (ht : s.AtMoment source depths t) :
    ∃ limit, Sound (tableOf depths) limit t := by
  obtain ⟨program, uses, n, haccepts, rfl, hreaches⟩ := ht
  obtain ⟨⟨places, hw⟩, hground, hplaced, -⟩ := h.ready haccepts
  have hstart : Sound (tableOf _) n
      ⟨_, nestingRoom, none, .executeAll program⟩ :=
    ⟨_, places, [], .top, hw, sees_top hw hground, rfl, rfl, hplaced⟩
  exact ⟨n, hstart.reaches hreaches⟩

open Run in
/-- At every moment of a session, whatever was run before and however it
ended: a variable that the table has an entry for is bound where the
entry leads, and reading it gives a value. The same is true of an
assignment whose value is there, unless it is part of the initializer of
the local variable that it names. Then the entry leads to the current
scope, which does not bind the name yet, and the assignment fails. -/
theorem depths_lead_to_bindings (clock : Clock) (natives : List NativeSpec)
    (sources : List String) (source : String) (depths : Depths) (t : Moment)
    (h : ((Session.start clock natives).runAll sources).1.AtMoment source
      depths t) (node : Node) (name : String) (depth : Nat)
    (hentry : depths[node.id]? = some depth) :
    (t.task = .evaluate (.var node name) →
      t.machine.Binds depth name ∧
        ∃ v, readName (.byDepth depths) node.id name t.machine
          = .ok v t.machine) ∧
    ∀ v, t.task = .store node name v →
      (t.initializing ≠ some name →
        t.machine.Binds depth name ∧
          ∃ m, writeName (.byDepth depths) node.id name v t.machine
            = .ok () m) ∧
      (t.initializing = some name →
        depth = 0 ∧
          t.machine.store.lookup t.machine.env.scope name = none ∧
          writeName (.byDepth depths) node.id name v t.machine
            = .error (.fault (.undefined name) none) t.machine) := by
  obtain ⟨program, uses, n, haccepts, rfl, hreaches⟩ := h
  obtain ⟨hpaired, -⟩ := (Scoping.paired_start clock natives).runAll sources
  obtain ⟨⟨places, hw⟩, hground, hplaced, -⟩ := hpaired.ready haccepts
  have hstart : Scoping.Sound (Scoping.tableOf _) n
      ⟨_, nestingRoom, none, .executeAll program⟩ :=
    ⟨_, places, [], .top, hw, Scoping.sees_top hw hground, rfl, rfl, hplaced⟩
  have hsound := hstart.reaches hreaches
  exact ⟨fun htask => hsound.reads htask hentry,
    fun v htask => hsound.writes htask hentry⟩

/-- The program `{var b;var a=a=b;}`, which reads `b` and assigns `a`
where `a` gets its first value. -/
def ownInitializer : List Stmt :=
  let node (id column : Nat) : Node := ⟨id, 1, column, column - 1⟩
  let name (text : String) (column : Nat) : Name :=
    ⟨text, 1, column, column - 1⟩
  [.block (node 6 1)
    [.varDecl (node 1 2) (name "b" 6) none,
      .varDecl (node 5 8) (name "a" 12)
        (some (.assign (node 4 14) "a" (.var (node 3 16) "b")))]]

theorem accepts_ownInitializer :
    (Session.start 0 []).Accepts "{var b;var a=a=b;}" ownInitializer
      [⟨⟨3, 1, 16, 15⟩, "b", .read, 0⟩, ⟨⟨4, 1, 14, 13⟩, "a", .write, 0⟩]
      7 where
  read := by
    show readProgram "{var b;var a=a=b;}" 1 = _
    cbv
  bound := by
    cbv

theorem depths_lead_to_bindings_ownInitializer :
    ∃ (depths : Depths) (t t' : Moment) (v : Value),
      (Session.start 0 []).AtMoment "{var b;var a=a=b;}" depths t ∧
        t.task = .evaluate (.var ⟨3, 1, 16, 15⟩ "b") ∧
        t.machine.Binds 0 "b" ∧
      (Session.start 0 []).AtMoment "{var b;var a=a=b;}" depths t' ∧
        t'.task = .store ⟨4, 1, 14, 13⟩ "a" v ∧
        Run.writeName (.byDepth depths) 4 "a" v t'.machine
          = .error (.fault (.undefined "a") none) t'.machine := by
  let uses : List LocalUse :=
    [⟨⟨3, 1, 16, 15⟩, "b", .read, 0⟩, ⟨⟨4, 1, 14, 13⟩, "a", .write, 0⟩]
  let depths : Depths := Depths.record ∅ uses
  let m := (Session.start 0 []).machine.inBlock
  let m' : Machine := { m with store := m.store.define m.env "b" .nil }
  have hread : depths[3]? = some 0 := by
    rw [Depths.getElem?_record_of_none Std.TreeMap.getElem?_emptyc]
    rfl
  have hwrite : depths[4]? = some 0 := by
    rw [Depths.getElem?_record_of_none Std.TreeMap.getElem?_emptyc]
    rfl
  have hb : execute ⟨.byDepth depths, roundBound⟩ 2499
      (.varDecl ⟨1, 1, 2, 1⟩ ⟨"b", 1, 6, 5⟩ none) m = .ok .normal m' := by
    unfold execute
    rfl
  have hinit : Reaches ⟨.byDepth depths, roundBound⟩
      ⟨(Session.start 0 []).machine, nestingRoom, none,
        .executeAll ownInitializer⟩
      ⟨m', 2498, some "a", .evaluate (.assign ⟨4, 1, 14, 13⟩ "a"
        (.var ⟨3, 1, 16, 15⟩ "b"))⟩ :=
    .head .firstStmt <| .head .block <| .head (.moreStmts hb) <|
      .head .firstStmt <| .single .initializer
  let t : Moment := ⟨m', 2497, some "a", .evaluate (.var ⟨3, 1, 16, 15⟩ "b")⟩
  have ht : (Session.start 0 []).AtMoment "{var b;var a=a=b;}" depths t :=
    ⟨_, uses, 7, accepts_ownInitializer, rfl, hinit.tail .assigned⟩
  obtain ⟨hbinds, v, hv⟩ := (depths_lead_to_bindings 0 [] []
    "{var b;var a=a=b;}" depths t ht ⟨3, 1, 16, 15⟩ "b" 0 hread).1 rfl
  have hvalue : evaluate ⟨.byDepth depths, roundBound⟩ 2497
      (.var ⟨3, 1, 16, 15⟩ "b") m' = .ok v m' := by
    unfold evaluate
    exact Run.located_eq_ok.2 hv
  let t' : Moment := ⟨m', 2497, some "a", .store ⟨4, 1, 14, 13⟩ "a" v⟩
  have ht' : (Session.start 0 []).AtMoment "{var b;var a=a=b;}" depths t' :=
    ⟨_, uses, 7, accepts_ownInitializer, rfl, hinit.tail (.store hvalue)⟩
  obtain ⟨-, -, hfails⟩ := ((depths_lead_to_bindings 0 [] []
    "{var b;var a=a=b;}" depths t' ht' ⟨4, 1, 14, 13⟩ "a" 0 hwrite).2 v
      rfl).2 rfl
  exact ⟨depths, t, t', v, ht, rfl, hbinds, ht', rfl, hfails⟩

end Lox
