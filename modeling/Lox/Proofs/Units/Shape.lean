/-
The shape of the store. A machine runs one program after another, each by
some table, and its store is never emptied: closures keep environments of
programs that have long ended, or that failed. Still, at every state that
is come upon (`Machine.Visits`), every environment that is known hangs from
the globals by a chain of environments that were made one after another
(`Machine.Shaped`), a scope has one environment for good, and what is bound
at a state is bound at all that come after it (`Machine.Precedes`), in an
order in which any two have their place (`Machine.Visits.precedes_or`).

Any program and any table will do. The units of a session are such
programs, each with what the session has noted of uses by then
(`Session.visits_runAll`).

# The proof

One ledger is carried along. At first it has the globals alone, a program
only adds to it, and every state on the way has a ledger between those at
the two ends of the program (`Discipline.Holds.course`). So the ledgers of
all states go on to one and the same (`Machine.exists_last`), in which a
scope has one entry.
-/
import Lox.Proofs.Run.Chains
import Lox.Proofs.Run.Private
import Lox.Proofs.Run.Turns
import Lox.Proofs.Scoping.Found
import Lox.Proofs.Units.Recorded

namespace Lox

-- ================================================================== states

/-- A program to run, and what is known of its uses. -/
structure Job where
  depths : Depths
  program : List Stmt

namespace Job

/-- Names are found by the table of the program. -/
def setting (job : Job) : Setting := ⟨.byDepth job.depths, roundBound⟩

/-- The first moment of the program. -/
def start (job : Job) (m : Machine) : Moment :=
  ⟨m, nestingRoom, none, .executeAll job.program⟩

/-- The machine behind the program, at rest again. -/
def run (job : Job) (m : Machine) : Machine :=
  { (m.interpret job.depths job.program).1 with env := .globals, output := "" }

end Job

namespace Machine

/-- When the programs are run one after another, beginning with the first
machine, there is a state with the second machine and these values in hand:
between programs, at a moment of one of them, or when the task of a moment
has ended, however it ended. -/
inductive Visits : Machine → List Job → Machine → List Value → Prop where
  | rest {m : Machine} {jobs : List Job} : Visits m jobs m []
  | moment {m : Machine} {job : Job} {jobs : List Job} {t : Moment} :
      Reaches job.setting (job.start m) t →
      Visits m (job :: jobs) t.machine t.task.hand
  | ended {m : Machine} {job : Job} {jobs : List Job} {t : Moment} :
      Reaches job.setting (job.start m) t →
      Visits m (job :: jobs) (t.after job.setting) []
  | later {m m' : Machine} {job : Job} {jobs : List Job}
      {hand : List Value} :
      Visits (job.run m) jobs m' hand → Visits m (job :: jobs) m' hand

/-- When the programs are run one after another, the state with the second
machine does not come after that with the third. -/
inductive Precedes : Machine → List Job → Machine → Machine → Prop where
  | within {m m' m'' : Machine} {job : Job} {jobs : List Job} :
      (job.start m).Precedes job.setting m' m'' →
      Precedes m (job :: jobs) m' m''
  | rests {m : Machine} {job : Job} {jobs : List Job} :
      Precedes m (job :: jobs) ((job.start m).after job.setting) (job.run m)
  | later {m m' m'' : Machine} {job : Job} {jobs : List Job} :
      Precedes (job.run m) jobs m' m'' → Precedes m (job :: jobs) m' m''
  | same {m m' : Machine} {jobs : List Job} : Precedes m jobs m' m'
  | trans {m m₁ m₂ m₃ : Machine} {jobs : List Job} :
      Precedes m jobs m₁ m₂ → Precedes m jobs m₂ m₃ → Precedes m jobs m₁ m₃

/-- The environment has a scope that is there. It is that of the globals, or
within one that is known too and was made before it, and as far outwards as
there are scopes around it is that of the globals. -/
structure Shaped (m : Machine) (hand : List Value) (env : Env) : Prop where
  made : env.scope < m.store.size
  around : env = .globals ∨ ∃ outer, m.Knows hand outer ∧
    env.enclosing = outer.chain ∧ outer.scope < env.scope
  outermost : env.ancestor env.depth = .ok .globals

end Machine

-- ================================================================= ledgers

namespace Ledger

variable {k : Ledger} {m : Machine} {hand : List Value} {env : Env}

/-- Outwards, an environment of the ledger comes to the globals. -/
theorem Has.ancestor_depth (h : k.Has env) :
    env.ancestor env.depth = .ok .globals := by
  rw [Env.ancestor_eq_ok]
  obtain ⟨scope, enclosing⟩ := env
  induction enclosing generalizing scope with
  | nil =>
    obtain rfl : scope = 0 := k.outermost h
    rfl
  | cons outer enclosing ih => exact ih outer (k.closed h)

/-- The ledger has all that is known at a state. -/
structure OfState (k : Ledger) (m : Machine) (hand : List Value) : Prop where
  store : k.OfStore m.store
  known : ∀ env, m.Knows hand env → k.Has env

theorem OfState.shaped (h : k.OfState m hand) (hknows : m.Knows hand env) :
    m.Shaped hand env := by
  have hhas := h.known env hknows
  refine ⟨h.store.length ▸ hhas.lt_length, ?_, hhas.ancestor_depth⟩
  obtain ⟨scope, enclosing⟩ := env
  cases enclosing with
  | nil =>
    obtain rfl : scope = 0 := k.outermost hhas
    exact .inl rfl
  | cons outer enclosing =>
    obtain ⟨inner, hinner, haround⟩ := hknows
    refine .inr ⟨⟨outer, enclosing⟩, ⟨inner, hinner, ?_⟩, rfl,
      k.earlier hhas⟩
    exact (List.suffix_cons _ _).trans haround

/-- Of a machine at the globals, with nothing in hand. -/
theorem OfStore.ofState (h : k.OfStore m.store) (henv : k.Has m.env) :
    k.OfState m [] :=
  ⟨h, fun _ hknows => h.has_of_knows henv (fun _ => List.not_mem_nil.elim)
    hknows⟩

end Ledger

-- ================================================================ programs

namespace Job

variable {job : Job} {m : Machine}

theorem honest (job : Job) : job.setting.access.Honest :=
  Access.byDepth_honest job.depths

theorem store_run (job : Job) (m : Machine) :
    (job.run m).store = ((job.start m).after job.setting).store := by
  show (m.interpret job.depths job.program).1.store = _
  rw [Machine.interpret_fst, Discipline.finalMachine_runProgram]
  rfl

end Job

namespace Machine

/-- There is a ledger to which those of all states go on. -/
theorem exists_last {m : Machine} {k : Ledger} (jobs : List Job)
    (henv : m.env = .globals) (hstore : k.OfStore m.store) :
    ∃ last, k.Later last ∧ ∀ m' hand, m.Visits jobs m' hand →
      ∃ k' : Ledger, k'.Later last ∧ k'.OfState m' hand := by
  have hglobals : k.Has m.env := henv ▸ k.globals
  -- The induction is on the jobs: each goes on from what the one before has
  -- left.
  induction jobs generalizing m k with
  | nil =>
    refine ⟨k, List.prefix_rfl, fun m' hand h => ?_⟩
    cases h
    exact ⟨k, List.prefix_rfl, hstore.ofState hglobals⟩
  | cons job jobs ih =>
    have hstart : links.Holds k (job.start m) := ⟨hstore, hglobals⟩
    obtain ⟨behind, hbehind, hafter, hmoments⟩ :=
      hstart.course links_lawful job.honest
    rw [← job.store_run] at hafter
    obtain ⟨last, hlast, hlater⟩ := ih rfl hafter behind.globals
    refine ⟨last, hbehind.trans hlast, fun m' hand h => ?_⟩
    cases h with
    | rest =>
      exact ⟨k, hbehind.trans hlast, hstore.ofState hglobals⟩
    | moment hreaches =>
      obtain ⟨k', k'', -, hholds, hk', -, hk''⟩ := hmoments _ hreaches
      exact ⟨k', (hk'.trans hk'').trans hlast, hholds.1,
        fun _ hknows => links_known hholds hknows⟩
    | @ended _ _ _ t hreaches =>
      obtain ⟨k', k'', -, hholds, hk', hstore'', hk''⟩ := hmoments _ hreaches
      have hhas : k''.Has (t.after job.setting).env := by
        rw [t.after_env]
        exact (links_current hholds).later hk'
      exact ⟨k'', hk''.trans hlast, hstore''.ofState hhas⟩
    | later h => exact hlater m' hand h

/-- What is bound at a state is bound at those that it precedes. -/
theorem Precedes.widens {m m' m'' : Machine} {jobs : List Job}
    (h : m.Precedes jobs m' m'') : m'.store.Widens m''.store := by
  induction h with
  | @within _ _ _ job _ h => exact h.widens job.honest
  | @rests m job =>
    rw [job.store_run]
    exact .refl _
  | later _ ih => exact ih
  | same => exact .refl _
  | trans _ _ ih ih' => exact ih.trans ih'

section Order

variable {m m₁ m₂ : Machine} {job : Job} {jobs : List Job} {t : Moment}
  {hand₁ hand₂ : List Value}

/-- The states of a program come before the rest behind it. -/
theorem precedes_run (h : Reaches job.setting (job.start m) t)
    (hedge : t.Edge job.setting m₁) :
    m.Precedes (job :: jobs) m₁ (job.run m) :=
  .trans (.within (hedge.between h).2) .rests

/-- All states come behind the start. -/
theorem Visits.behind_start (h : m.Visits jobs m₁ hand₁) :
    m.Precedes jobs m m₁ := by
  induction h with
  | rest => exact .same
  | moment hreaches =>
    exact .within (Moment.Edge.start.between hreaches).1
  | ended hreaches =>
    exact .within (Moment.Edge.ending.between hreaches).1
  | @later m _ job _ _ _ ih =>
    exact .trans (precedes_run .refl .start) (.later ih)

/-- A state of some programs is a state of the first, or one behind it. -/
theorem Visits.cases_first (h : m.Visits (job :: jobs) m₁ hand₁) :
    (∃ t, Reaches job.setting (job.start m) t ∧ t.Edge job.setting m₁) ∨
      (job.run m).Visits jobs m₁ hand₁ := by
  cases h with
  | rest => exact .inl ⟨job.start m, .refl, .start⟩
  | moment hreaches => exact .inl ⟨_, hreaches, .start⟩
  | ended hreaches => exact .inl ⟨_, hreaches, .ending⟩
  | later h => exact .inr h

/-- Of two states, one precedes the other. -/
theorem Visits.precedes_or (h₁ : m.Visits jobs m₁ hand₁)
    (h₂ : m.Visits jobs m₂ hand₂) :
    m.Precedes jobs m₁ m₂ ∨ m.Precedes jobs m₂ m₁ := by
  induction jobs generalizing m with
  | nil =>
    cases h₁
    cases h₂
    exact .inl .same
  | cons job jobs ih =>
    rcases h₁.cases_first with ⟨t₁, hreaches₁, hedge₁⟩ | hlater₁ <;>
      rcases h₂.cases_first with ⟨t₂, hreaches₂, hedge₂⟩ | hlater₂
    · rcases Moment.precedes_or hreaches₁ hreaches₂ hedge₁ hedge₂ with h | h
      · exact .inl (.within h)
      · exact .inr (.within h)
    · exact .inl (.trans (precedes_run hreaches₁ hedge₁)
        (.later hlater₂.behind_start))
    · exact .inr (.trans (precedes_run hreaches₂ hedge₂)
        (.later hlater₁.behind_start))
    · rcases ih hlater₁ hlater₂ with h | h
      · exact .inl (.later h)
      · exact .inr (.later h)

end Order

end Machine

namespace Session

/-- What the units of a session come to, each by the table that the session
then has. A unit that is rejected is not run. -/
def jobs (s : Session) : List String → List Job
  | [] => []
  | source :: sources =>
    let later := (s.run source).1.jobs sources
    match (readProgram source s.nextId).1 with
    | .error _ => later
    | .ok program =>
      match bindProgram program with
      | .error _ => later
      | .ok uses => ⟨s.depths.record uses, program⟩ :: later

theorem Accepts.jobs {s : Session} {source : String} {program : List Stmt}
    {uses : List LocalUse} {n : Nat} (h : s.Accepts source program uses n)
    (sources : List String) :
    s.jobs (source :: sources)
      = ⟨s.depths.record uses, program⟩ :: (s.run source).1.jobs sources := by
  simp only [Session.jobs, h.read, h.bound]

/-- What is come upon behind the first unit is come upon. -/
theorem visits_cons {s : Session} {source : String} {sources : List String}
    {m : Machine} {hand : List Value}
    (h : (s.run source).1.machine.Visits ((s.run source).1.jobs sources) m
      hand) :
    s.machine.Visits (s.jobs (source :: sources)) m hand := by
  rcases s.run_cases source with ⟨e, n, hread, hrun⟩
    | ⟨program, errors, n, hread, hbind, hrun⟩ | ⟨program, uses, n, haccepts⟩
  · simp only [jobs, hread]
    rw [hrun] at h ⊢
    exact h
  · simp only [jobs, hread, hbind]
    rw [hrun] at h ⊢
    exact h
  · rw [haccepts.jobs]
    have hmachine : (s.run source).1.machine
        = Job.run ⟨s.depths.record uses, program⟩ s.machine := by
      rw [haccepts.run]
      rfl
    rw [hmachine] at h
    exact .later h

/-- The states of a session, between units, at a moment of one and when its
task has ended, are states of its machine. -/
theorem visits_runAll (s : Session) (sources : List String) :
    s.machine.Visits (s.jobs sources) (s.runAll sources).1.machine [] ∧
      ∀ source depths t, (s.runAll sources).1.AtMoment source depths t →
        s.machine.Visits (s.jobs (sources ++ [source])) t.machine
          t.task.hand ∧
        s.machine.Visits (s.jobs (sources ++ [source]))
          (t.after ⟨.byDepth depths, roundBound⟩) [] := by
  induction sources generalizing s with
  | nil =>
    refine ⟨.rest, ?_⟩
    rintro source depths t ⟨program, uses, n, haccepts, rfl, hreaches⟩
    have hjobs : s.jobs [source] = ⟨s.depths.record uses, program⟩ :: [] :=
      haccepts.jobs []
    rw [List.nil_append, hjobs]
    exact ⟨.moment hreaches, .ended hreaches⟩
  | cons first sources ih =>
    obtain ⟨hrest, hmoments⟩ := ih (s.run first).1
    refine ⟨visits_cons hrest, fun source depths t ht => ?_⟩
    obtain ⟨hmoment, hended⟩ := hmoments source depths t ht
    exact ⟨visits_cons hmoment, visits_cons hended⟩

end Session

/-- What a block or a call begins runs within an environment that is
known. -/
theorem Begins.within_of_opens {setting : Setting} {t t' : Moment}
    (h : Begins setting t t') (hopens : t.task.Opens) :
    ∃ outer, t.Knows outer ∧ t'.machine.env.enclosing = outer.chain := by
  obtain ⟨m, room, init, task⟩ := t
  rcases hopens with ⟨node, body, rfl⟩ | ⟨f, args, rfl⟩
  · cases h
    exact ⟨m.env, ⟨m.env, .inl .current, List.suffix_rfl⟩, rfl⟩
  · cases h
    exact ⟨f.closure, ⟨f.closure, .inl (.closure List.mem_cons_self),
      List.suffix_rfl⟩, rfl⟩

/-- Whatever programs are run one after another, by whatever tables, and
however each of them ends:

- an environment that is known at one state, and one that is known at
  another, are the same if their scopes are, so what stands around an
  environment is what stood around it when it was made;
- an environment that is known is that of the globals, or within one that
  was made before it, and outwards it comes to the globals;
- what a block or a call begins runs in an environment with a new scope,
  numbered in the order in which scopes are made, within one that is known;
- of two states one comes before the other, and what is bound in a scope at
  the one is bound there at the other;
- outwards from an environment there is one just as far as there are scopes
  around it, which is the depth that it is shown with;
- to go outwards twice is to go outwards once by the sum, and the one fails
  if and only if the other does. -/
theorem environments_shaped (clock : Clock) (natives : List NativeSpec)
    (jobs : List Job) :
    let start := Machine.initial clock natives
    (∀ m hand m' hand' env env', start.Visits jobs m hand →
      start.Visits jobs m' hand' → m.Knows hand env → m'.Knows hand' env' →
        env'.scope = env.scope → env' = env) ∧
    (∀ m hand env, start.Visits jobs m hand → m.Knows hand env →
      m.Shaped hand env) ∧
    (∀ setting t t', Begins setting t t' → t.task.Opens →
      t'.machine.env.scope = t.machine.store.size ∧
        ∃ outer, t.Knows outer ∧ t'.machine.env.enclosing = outer.chain) ∧
    (∀ m hand m' hand', start.Visits jobs m hand →
      start.Visits jobs m' hand' →
        start.Precedes jobs m m' ∨ start.Precedes jobs m' m) ∧
    (∀ m m', start.Precedes jobs m m' → m.store.Widens m'.store) ∧
    (∀ (env : Env) depth,
      (∃ outer, env.ancestor depth = .ok outer) ↔ depth ≤ env.depth) ∧
    (∀ (s : Store) env, ∃ names, s.describe env
      = "<Environment depth=" ++ toString env.depth ++ " names=[" ++ names) ∧
    ∀ (env : Env) a b,
      (env.ancestor a >>= fun outer => outer.ancestor b).toOption
        = (env.ancestor (a + b)).toOption := by
  intro start
  obtain ⟨k, hstore, -⟩ :=
    (Machine.AtRest.initial clock natives).exists_ledger
  obtain ⟨last, -, hstates⟩ :=
    Machine.exists_last jobs (Machine.initial_env clock natives) hstore
  refine ⟨?_, ?_, ?_, ?_, ?_, ?_, ?_, Env.toOption_ancestor_add⟩
  · intro m hand m' hand' env env' hvisits hvisits' hknows hknows' hscope
    obtain ⟨k₁, hlater, hk₁⟩ := hstates m hand hvisits
    obtain ⟨k₂, hlater', hk₂⟩ := hstates m' hand' hvisits'
    have hhas : last.Has env := (hk₁.known env hknows).later hlater
    exact hhas.unique ((hk₂.known env' hknows').later hlater') hscope
  · intro m hand env hvisits hknows
    obtain ⟨k', -, hk'⟩ := hstates m hand hvisits
    exact hk'.shaped hknows
  · intro setting t t' hbegins hopens
    exact ⟨hbegins.scope_of_opens hopens, hbegins.within_of_opens hopens⟩
  · intro m hand m' hand' hvisits hvisits'
    exact hvisits.precedes_or hvisits'
  · intro m m' hprecedes
    exact hprecedes.widens
  · intro env depth
    exact Env.exists_ancestor_iff
  · intro s env
    exact ⟨", ".intercalate _ ++ "]>", String.append_assoc ..⟩

/-- The program `{var b;{}}`. -/
def nestedBlock : List Stmt :=
  let node (id column : Nat) : Node := ⟨id, 1, column, column - 1⟩
  [.block (node 3 1)
    [.varDecl (node 1 2) ⟨"b", 1, 6, 5⟩ none, .block (node 2 8) []]]

/-- In the inner of two blocks three environments are known, and what is
bound in the outer one is bound there when the program has ended. -/
theorem environments_shaped_nestedBlock :
    let start := Machine.initial 0 []
    let job : Job := ⟨∅, nestedBlock⟩
    ∃ m, start.Visits [job] m [] ∧ m.env = ⟨2, [1, 0]⟩ ∧
      m.Shaped [] ⟨2, [1, 0]⟩ ∧ (m.store.lookup 1 "b").isSome = true ∧
      ((job.run start).store.lookup 1 "b").isSome = true := by
  intro start job
  let outer := start.inBlock
  let declared : Machine :=
    { outer with store := outer.store.define outer.env "b" .nil }
  have hdeclared : execute job.setting 2499
      (.varDecl ⟨1, 1, 2, 1⟩ ⟨"b", 1, 6, 5⟩ none) outer
      = .ok .normal declared := by
    unfold execute
    rfl
  have hreaches : Reaches job.setting (job.start start)
      ⟨declared.inBlock, 2498, none, .executeAll []⟩ :=
    .head .firstStmt <| .head .block <| .head (.moreStmts hdeclared) <|
      .head .firstStmt <| .single .block
  obtain ⟨-, hshaped, -, -, hwidens, -⟩ := environments_shaped 0 [] [job]
  have hvisits : start.Visits [job] declared.inBlock [] := .moment hreaches
  have hbound : (declared.inBlock.store.lookup 1 "b").isSome = true := rfl
  refine ⟨declared.inBlock, hvisits, rfl, ?_, hbound, ?_⟩
  · exact hshaped _ _ _ hvisits ⟨_, .inl .current, List.suffix_rfl⟩
  · exact (hwidens _ _ (Machine.precedes_run hreaches .start)).bound _ _ hbound

end Lox
