/-
The environments that there are, and what stands around them. A run
knows an environment if it is the current one, that of the globals, or
the closure of a function that it has in hand or that some scope binds,
and with an environment it knows those around it (`Machine.Knows`).

A scope is made once, in an environment that is known, and its place in
a chain is given with it. So there is a ledger with one entry for each
scope, what stands around it, and every environment that is ever known
is in it (`links_lawful`). The ledger only grows. Hence two environments
of one scope are the same, however far apart they are met
(`links_same`), and one whose scope is made just now has not been met
(`links_fresh`).
-/
import Lox.Proofs.Run.Discipline
import Lox.Proofs.Run.Restored
import Lox.Proofs.Scoping.Sessions

namespace Lox

-- =========================================================== environments

/-- A scope of a chain has an environment in it. -/
theorem Env.exists_around {env : Env} {scope : Nat} (h : scope ∈ env.chain) :
    ∃ outer : Env, outer.scope = scope ∧ outer.chain <:+ env.chain := by
  obtain ⟨inner, enclosing, hchain⟩ := List.append_of_mem h
  exact ⟨⟨scope, enclosing⟩, rfl, inner, hchain.symm⟩

/-- The scope binds a function that was declared in this environment. -/
def Store.Closes (s : Store) (scope : Nat) (env : Env) : Prop :=
  ∃ name f, s.lookup scope name = some (.function f) ∧ env = f.closure

namespace Machine

variable (m : Machine) (hand : List Value)

/-- The environments from which a run with these values in hand finds all
others. -/
inductive Root : Env → Prop where
  | current : Root m.env
  | globals : Root .globals
  | closure {f : Function} : .function f ∈ hand → Root f.closure

/-- A run with these values in hand comes upon the environment. -/
def Knows (env : Env) : Prop :=
  ∃ inner, (m.Root hand inner ∨ ∃ scope, m.store.Closes scope inner) ∧
    env.chain <:+ inner.chain

end Machine

/-- The task of the moment comes upon the environment. -/
def Moment.Knows (t : Moment) (env : Env) : Prop :=
  t.machine.Knows t.task.hand env

-- ================================================================= ledgers

theorem getElem?_of_prefix {α : Type} {xs ys : List α} (hstarts : xs <+: ys)
    {i : Nat} {x : α} (h : xs[i]? = some x) : ys[i]? = some x := by
  obtain ⟨more, rfl⟩ := hstarts
  exact (List.getElem?_append_left (List.getElem?_eq_some_iff.1 h).1).trans h

/-- What stands around each scope, by the number of the scope. What
stands around one is an environment of the ledger whose scope was made
before, and nothing stands around that of the globals alone. -/
structure Ledger where
  around : List (List Nat)
  globals : around[0]? = some []
  outermost : ∀ {scope : Nat}, around[scope]? = some [] → scope = 0
  closed : ∀ {scope outer : Nat} {enclosing : List Nat},
    around[scope]? = some (outer :: enclosing) →
      around[outer]? = some enclosing
  earlier : ∀ {scope outer : Nat} {enclosing : List Nat},
    around[scope]? = some (outer :: enclosing) → outer < scope

namespace Ledger

/-- The environment is in the ledger. -/
def Has (k : Ledger) (env : Env) : Prop :=
  k.around[env.scope]? = some env.enclosing

/-- The second ledger goes on from the first. -/
def Later (k k' : Ledger) : Prop := k.around <+: k'.around

variable {k k' : Ledger} {env env' : Env}

theorem Has.later (hlater : k.Later k') (h : k.Has env) : k'.Has env :=
  getElem?_of_prefix hlater h

/-- An environment of the ledger stands at a scope below its length. -/
theorem Has.lt_length (h : k.Has env) : env.scope < k.around.length :=
  (List.getElem?_eq_some_iff.1 h).1

/-- A scope has one environment. -/
theorem Has.unique (h : k.Has env) (h' : k.Has env')
    (hscope : env'.scope = env.scope) : env' = env := by
  obtain ⟨scope, enclosing⟩ := env
  obtain ⟨scope', enclosing'⟩ := env'
  obtain rfl : scope' = scope := hscope
  have hsame : some enclosing = some enclosing' := Eq.trans h.symm h'
  cases hsame
  rfl

/-- With an environment, those around it are in the ledger. -/
theorem Has.outwards (h : k.Has env) (haround : env'.chain <:+ env.chain) :
    k.Has env' := by
  obtain ⟨scope, enclosing⟩ := env
  obtain ⟨scope', enclosing'⟩ := env'
  induction enclosing generalizing scope with
  | nil =>
    rcases List.suffix_cons_iff.1 haround with heq | hsuffix
    · cases heq
      exact h
    · cases List.suffix_nil.1 hsuffix
  | cons outer enclosing ih =>
    rcases List.suffix_cons_iff.1 haround with heq | hsuffix
    · cases heq
      exact h
    · exact ih outer (k.closed h) hsuffix

/-- Every chain ends at the globals. -/
theorem Has.zero_mem_chain (h : k.Has env) : 0 ∈ env.chain := by
  obtain ⟨scope, enclosing⟩ := env
  induction enclosing generalizing scope with
  | nil =>
    obtain rfl : scope = 0 := k.outermost h
    exact List.mem_cons_self
  | cons outer enclosing ih =>
    exact List.mem_cons_of_mem _ (ih outer (k.closed h))

/-- All scopes of an environment are in the ledger. -/
theorem Has.chain_lt (h : k.Has env) :
    ∀ scope ∈ env.chain, scope < k.around.length := by
  intro scope hmem
  obtain ⟨outer, rfl, haround⟩ := Env.exists_around hmem
  exact (h.outwards haround).lt_length

/-- The ledger of the globals alone. -/
def initial : Ledger where
  around := [[]]
  globals := rfl
  outermost {scope} h := by
    rw [List.getElem?_singleton] at h
    split at h
    · assumption
    · cases h
  closed {scope outer enclosing} h := by
    rw [List.getElem?_singleton] at h
    split at h <;> cases h
  earlier {scope outer enclosing} h := by
    rw [List.getElem?_singleton] at h
    split at h <;> cases h

/-- The ledger with a new scope, made in an environment of the ledger. -/
def grow (k : Ledger) (env : Env) (h : k.Has env) : Ledger where
  around := k.around ++ [env.chain]
  globals := getElem?_of_prefix (List.prefix_append _ _) k.globals
  outermost {scope} hscope := by
    rcases Nat.lt_or_ge scope k.around.length with hlt | hge
    · rw [List.getElem?_append_left hlt] at hscope
      exact k.outermost hscope
    · rw [List.getElem?_append_right hge, List.getElem?_singleton] at hscope
      split at hscope <;> cases hscope
  closed {scope outer enclosing} hscope := by
    refine getElem?_of_prefix (List.prefix_append _ _) ?_
    rcases Nat.lt_or_ge scope k.around.length with hlt | hge
    · rw [List.getElem?_append_left hlt] at hscope
      exact k.closed hscope
    · rw [List.getElem?_append_right hge, List.getElem?_singleton] at hscope
      split at hscope <;> cases hscope
      exact h
  earlier {scope outer enclosing} hscope := by
    rcases Nat.lt_or_ge scope k.around.length with hlt | hge
    · rw [List.getElem?_append_left hlt] at hscope
      exact k.earlier hscope
    · rw [List.getElem?_append_right hge, List.getElem?_singleton] at hscope
      split at hscope <;> cases hscope
      exact Nat.lt_of_lt_of_le h.lt_length hge

theorem later_grow (h : k.Has env) : k.Later (k.grow env h) :=
  List.prefix_append _ _

/-- The closure is in the ledger, if the value has one. -/
def HasValue (k : Ledger) (v : Value) : Prop :=
  ∀ f, v = .function f → k.Has f.closure

theorem HasValue.later {v : Value} (hlater : k.Later k')
    (h : k.HasValue v) : k'.HasValue v :=
  fun f heq => (h f heq).later hlater

/-- The ledger has an entry for each scope of the store, and all that the
store binds is in it. -/
structure OfStore (k : Ledger) (s : Store) : Prop where
  length : k.around.length = s.size
  stored : s.All k.HasValue

namespace OfStore

variable {s : Store}

/-- A store with one more binding has the links it had. -/
theorem bind (h : k.OfStore s) {v : Value} (hv : k.HasValue v) (scope : Nat)
    (name : String) : k.OfStore (s.bind scope name v) where
  length := h.length.trans (Store.size_bind ..).symm
  stored := h.stored.bind hv

/-- A new environment is linked to the one it is opened in, which the ledger
already has. -/
theorem grow (h : k.OfStore s) (henv : k.Has env) :
    (k.grow env henv).OfStore s.grow where
  length := by
    rw [Store.size_grow, ← h.length]
    exact List.length_append
  stored := Store.All.grow fun scope name v hv =>
    (h.stored scope name v hv).later (later_grow henv)

theorem defineAll (h : k.OfStore s) {named : List (String × Value)}
    (hnamed : ∀ p ∈ named, k.HasValue p.2) (env : Env) :
    k.OfStore (s.defineAll env named) :=
  Store.defineAll_of_define h fun _ p hp h => h.bind (hnamed p hp) _ _

/-- The environment that a new scope makes is in the grown ledger. -/
theorem has_newChild (h : k.OfStore s) (henv : k.Has env) :
    (k.grow env henv).Has (s.newChild env).1 := by
  show (k.around ++ [env.chain])[s.size]? = some env.chain
  rw [← h.length]
  exact List.getElem?_concat_length

end OfStore

end Ledger

-- ============================================================== discipline

/-- All environments are in the ledger. -/
def links : Discipline Ledger where
  Later := Ledger.Later
  OfStore := Ledger.OfStore
  OfValue := Ledger.HasValue
  OfExpr k env _ _ := k.Has env
  OfStmt k env _ := k.Has env
  OfStmts k env _ := k.Has env

/-- A scope is made in an environment of the ledger, and then has an
entry of its own. -/
theorem links_lawful : links.Lawful where
  refl _ := List.prefix_rfl
  trans h h' := h.trans h'
  value_later hlater h := h.later hlater
  expr_later hlater h := h.later hlater
  stmt_later hlater h := h.later hlater
  stmts_later hlater h := h.later hlater
  plain h f heq := absurd heq (h f)
  found h _ _ hv := h.stored _ _ _ hv
  assigned h _ _ _ hv := ⟨_, List.prefix_rfl, h.bind hv _ _⟩
  part h _ _ := h
  exprs h _ _ := h
  branch h _ _ := h
  head h := h
  tail h := h
  defined h _ hv := ⟨_, List.prefix_rfl, h.bind hv _ _⟩
  declared h henv := ⟨_, List.prefix_rfl,
    h.bind (fun f heq => by cases heq; exact henv) _ _⟩
  block h henv :=
    ⟨_, Ledger.later_grow henv, h.grow henv, h.has_newChild henv⟩
  body h hf _ hargs := by
    have henv := hf _ rfl
    have hlater := Ledger.later_grow henv
    refine ⟨_, hlater, (h.grow henv).defineAll (fun p hp => ?_) _,
      h.has_newChild henv⟩
    exact (hargs _ (List.of_mem_zip hp).2).later hlater

section Moments

variable {setting : Setting} {k k' : Ledger} {t t' : Moment}

/-- The task of a moment runs in an environment of the ledger. -/
theorem links_current (h : links.Holds k t) : k.Has t.machine.env := by
  obtain ⟨m, room, pending, task⟩ := t
  obtain ⟨-, htask⟩ := h
  cases task with
  | evaluateAll es =>
    obtain ⟨⟨_, h⟩, -⟩ := htask
    exact h
  | store node name v =>
    obtain ⟨-, _, h⟩ := htask
    exact h
  | call f args =>
    obtain ⟨-, -, _, _, h⟩ := htask
    exact h
  | perform hand deed =>
    obtain ⟨-, _, _, h⟩ := htask
    exact h
  | loop test body left => exact htask.1
  | _ => exact htask

theorem links_hand (h : links.Holds k t) :
    ∀ v ∈ t.task.hand, k.HasValue v := by
  obtain ⟨m, room, pending, task⟩ := t
  obtain ⟨-, htask⟩ := h
  cases task with
  | store node name v => exact List.forall_mem_singleton.2 htask.1
  | call f args => exact List.forall_mem_cons.2 ⟨htask.1, htask.2.1⟩
  | perform hand deed => exact htask.1
  | _ => nofun

/-- All that is known is in the ledger. -/
theorem Ledger.OfStore.has_of_knows {m : Machine} {hand : List Value}
    {env : Env} (h : k.OfStore m.store) (henv : k.Has m.env)
    (hhand : ∀ v ∈ hand, k.HasValue v) (hknows : m.Knows hand env) :
    k.Has env := by
  obtain ⟨inner, hinner, haround⟩ := hknows
  refine Has.outwards ?_ haround
  rcases hinner with hroot | ⟨scope, name, f, hlookup, rfl⟩
  · cases hroot with
    | current => exact henv
    | globals => exact k.globals
    | closure hmem => exact hhand _ hmem _ rfl
  · exact h.stored _ _ _ hlookup f rfl

/-- Every environment a moment knows is in the ledger. -/
theorem links_known (h : links.Holds k t) {env : Env} (hknows : t.Knows env) :
    k.Has env :=
  h.1.has_of_knows (links_current h) (links_hand h) hknows

/-- A scope that is made now is not one of an environment that is
known. -/
theorem links_fresh (h : links.Holds k t) {env : Env} (hknows : t.Knows env) :
    ∀ scope ∈ env.chain, scope < t.machine.store.size := by
  intro scope hmem
  rw [← h.1.length]
  exact (links_known h hknows).chain_lt scope hmem

/-- When the task has ended, however it ended, the ledger has what is
known then. -/
theorem links_after (haccess : setting.access.Honest) (h : links.Holds k t) :
    ∃ k' : Ledger, k.Later k' ∧
      ∀ env, (t.after setting).Knows [] env → k'.Has env := by
  obtain ⟨k', hlater, hstore⟩ := h.after links_lawful haccess
  refine ⟨k', hlater, fun env hknows =>
    hstore.has_of_knows ?_ (fun _ => List.not_mem_nil.elim) hknows⟩
  rw [t.after_env setting]
  exact (links_current h).later hlater

/-- An environment that is known at a moment, and one that is known at
a moment reached from there, or when the task has ended: if they have
one scope, they are the same. -/
theorem links_same (haccess : setting.access.Honest) (h : links.Holds k t)
    {env env' : Env} (hknows : t.Knows env)
    (hknows' : (∃ t', Reaches setting t t' ∧ t'.Knows env') ∨
      (t.after setting).Knows [] env')
    (hscope : env'.scope = env.scope) : env' = env := by
  have hhas := links_known h hknows
  rcases hknows' with ⟨t', hreaches, hknows'⟩ | hknows'
  · obtain ⟨k', hlater, h'⟩ := h.reaches links_lawful haccess hreaches
    exact (Ledger.Has.later hlater hhas).unique (links_known h' hknows')
      hscope
  · obtain ⟨k', hlater, hall⟩ := links_after haccess h
    exact (hhas.later hlater).unique (hall _ hknows') hscope

end Moments

-- ================================================================ programs

/-- The machines that there are between programs: before the first, and
what a program leaves of one, with whatever is known of its uses, and
with what was printed kept or taken away. -/
inductive Machine.AtRest : Machine → Prop where
  | initial (clock : Clock) (natives : List NativeSpec) :
      AtRest (.initial clock natives)
  | interpret {m : Machine} (depths : Depths) (program : List Stmt) :
      AtRest m → AtRest (m.interpret depths program).1
  | rested {m : Machine} :
      AtRest m → AtRest { m with env := .globals, output := "" }

/-- A unit without a session leaves a machine at rest as well. -/
theorem runAlone_atRest {m : Machine} (h : m.AtRest) (bound : Bool)
    (source : String) : (runAlone m bound source).1.AtRest := by
  unfold runAlone
  split
  · exact h
  · split
    · exact h
    · exact h.interpret _ _

theorem Session.run_atRest {s : Session} (h : s.machine.AtRest)
    (source : String) : (s.run source).1.machine.AtRest := by
  unfold Session.run
  rcases readProgram source s.nextId with ⟨_ | program, n⟩
  · exact h
  · rcases hbind : bindProgram program with _ | uses
    · simpa only [hbind] using h
    · simp only [hbind]
      exact (h.interpret _ program).rested

/-- Between the units of a session the machine is at rest. -/
theorem Session.runAll_atRest (sources : List String) {s : Session}
    (h : s.machine.AtRest) : (s.runAll sources).1.machine.AtRest := by
  induction sources generalizing s with
  | nil => exact h
  | cons source sources ih => exact ih (Session.run_atRest h source)

namespace Machine.AtRest

variable {m : Machine}

theorem env (h : m.AtRest) : m.env = .globals := by
  induction h with
  | initial clock natives => exact initial_env clock natives
  | interpret depths program _ ih =>
    exact (interpret_env _ depths program).trans ih
  | rested => rfl

/-- At rest, all that the store binds is in a ledger. -/
theorem exists_ledger (h : m.AtRest) :
    ∃ k : Ledger, k.OfStore m.store ∧ k.Has m.env := by
  rw [h.env]
  induction h with
  | initial clock natives =>
    refine ⟨.initial, ⟨?_, fun scope name v hv f heq => ?_⟩, rfl⟩
    · exact Machine.initial_store (Q := (1 = ·.size)) rfl
        (fun _ _ _ _ h => h.trans (Store.size_bind ..).symm) clock
    · exact absurd heq (initial_plain clock natives scope name v hv f)
  | @interpret m depths program hm ih =>
    obtain ⟨k, hk, hglobals⟩ := ih
    let setting : Setting := ⟨.byDepth depths, roundBound⟩
    have haccess : setting.access.Honest := Access.byDepth_honest depths
    have hrun : ∃ k', k.Later k' ∧ k'.OfStore (Run.finalMachine
        (runProgram setting nestingRoom program) m).store :=
      links_lawful.runProgram haccess hk (hm.env ▸ hglobals)
    obtain ⟨k', -, hk'⟩ := hrun
    rw [interpret_fst]
    exact ⟨k', hk', k'.globals⟩
  | rested _ ih => exact ih

/-- At every moment of a program, all environments are in a ledger. -/
theorem holds_links (h : m.AtRest) {depths : Depths} {program : List Stmt}
    {t : Moment}
    (ht : Reaches ⟨.byDepth depths, roundBound⟩
      ⟨m, nestingRoom, none, .executeAll program⟩ t) :
    ∃ k, links.Holds k t := by
  obtain ⟨k, hk, henv⟩ := h.exists_ledger
  have hstart : links.Holds k ⟨m, nestingRoom, none, .executeAll program⟩ :=
    ⟨hk, henv⟩
  obtain ⟨k', -, h'⟩ :=
    hstart.reaches links_lawful (Access.byDepth_honest depths) ht
  exact ⟨k', h'⟩

end Machine.AtRest

end Lox
