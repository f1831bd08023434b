/-
What is kept at every moment of a run. A discipline says what holds of
the stored values, of the value in hand and of the part of the program
that is about to be run, so that each follows from the ones before: a
part keeps what its statement keeps, a function what its declaration
kept, and a value that is found is one that was stored
(`Discipline.Lawful`). Then whatever runs keeps the discipline, and so
does every moment that is reached, all on one course from the start of a
task to its end (`Discipline.Holds.course`).

What holds may speak of more than the run knows, such as which scopes
there are for which declaration. So a discipline has a state of its own,
which moves on when a scope is made and never takes back what it said.
A discipline also says where a use may find its binding, which the access
has to comply with: as a rule, in a scope that the environment sees.
-/
import Lox.Proofs.Run.Finding
import Lox.Proofs.Run.Moments
import Lox.Proofs.Tree.Parts

namespace Lox

/-- The local variable that the expressions of a statement give its first
value. -/
def Stmt.pendingIn (env : Env) : Stmt → Option String
  | .varDecl _ name _ => if env == .globals then none else some name.text
  | _ => none

-- ============================================================ disciplines

/-- What is kept of all that a run deals with, in a state of its own. -/
structure Discipline (κ : Type) where
  /-- The second state may come after the first. -/
  Later : κ → κ → Prop
  OfStore : κ → Store → Prop
  OfValue : κ → Value → Prop
  /-- Of an expression that runs in an environment, as part of the
  initializer of a local variable or not. -/
  OfExpr : κ → Env → Option String → Expr → Prop
  OfStmt : κ → Env → Stmt → Prop
  /-- Of the statements of a program, a block or a body that are left. -/
  OfStmts : κ → Env → List Stmt → Prop
  /-- Where a use in an environment may find its binding. -/
  Sees : Env → Nat → Prop := Env.Sees

namespace Discipline

variable {κ : Type}

/-- Each thing that is kept follows from what was kept before. -/
structure Lawful (D : Discipline κ) : Prop where
  refl : ∀ k, D.Later k k
  trans : ∀ {k k' k''}, D.Later k k' → D.Later k' k'' → D.Later k k''
  value_later : ∀ {k k' v}, D.Later k k' → D.OfValue k v → D.OfValue k' v
  expr_later : ∀ {k k' env pending e}, D.Later k k' →
    D.OfExpr k env pending e → D.OfExpr k' env pending e
  stmt_later : ∀ {k k' env s}, D.Later k k' →
    D.OfStmt k env s → D.OfStmt k' env s
  stmts_later : ∀ {k k' env ss}, D.Later k k' →
    D.OfStmts k env ss → D.OfStmts k' env ss
  plain : ∀ {k v}, (∀ f, v ≠ .function f) → D.OfValue k v
  found : ∀ {k s env pending e scope name v}, D.OfStore k s →
    D.OfExpr k env pending e → D.Sees env scope →
      s.lookup scope name = some v → D.OfValue k v
  assigned : ∀ {k s env pending e scope name old v}, D.OfStore k s →
    D.OfExpr k env pending e → D.Sees env scope →
      s.lookup scope name = some old → D.OfValue k v →
        ∃ k', D.Later k k' ∧ D.OfStore k' (s.bind scope name v)
  part : ∀ {k env pending e}, D.OfExpr k env pending e →
    ∀ e' ∈ e.parts, D.OfExpr k env pending e'
  exprs : ∀ {k env s}, D.OfStmt k env s →
    ∀ e ∈ s.exprs, D.OfExpr k env (s.pendingIn env) e
  branch : ∀ {k env s}, D.OfStmt k env s →
    ∀ s' ∈ s.branches, D.OfStmt k env s'
  head : ∀ {k env s ss}, D.OfStmts k env (s :: ss) → D.OfStmt k env s
  tail : ∀ {k env s ss}, D.OfStmts k env (s :: ss) → D.OfStmts k env ss
  defined : ∀ {k s env node name init v}, D.OfStore k s →
    D.OfStmt k env (.varDecl node name init) → D.OfValue k v →
      ∃ k', D.Later k k' ∧ D.OfStore k' (s.define env name.text v)
  declared : ∀ {k s env node name paramsId params bodyNode body stamp},
    D.OfStore k s →
    D.OfStmt k env (.funDecl node name paramsId params bodyNode body) →
      ∃ k', D.Later k k' ∧ D.OfStore k' (s.define env name.text (.function
        ⟨stamp, name.text, params.map Name.text, body, env⟩))
  block : ∀ {k s env node body}, D.OfStore k s →
    D.OfStmt k env (.block node body) →
      ∃ k', D.Later k k' ∧ D.OfStore k' s.grow ∧
        D.OfStmts k' (s.newChild env).1 body
  body : ∀ {k s f args}, D.OfStore k s → D.OfValue k (.function f) →
    args.length = f.params.length → (∀ a ∈ args, D.OfValue k a) →
      ∃ k', D.Later k k' ∧
        D.OfStore k' (s.grow.defineAll (s.newChild f.closure).1
          (f.params.zip args)) ∧
        D.OfStmts k' (s.newChild f.closure).1 f.body

theorem Lawful.nil {D : Discipline κ} (hD : D.Lawful) {k : κ} :
    D.OfValue k .nil :=
  hD.plain fun _ h => by cases h

theorem Lawful.own {D : Discipline κ} (hD : D.Lawful) {k : κ} (p : Plain) :
    D.OfValue k p.value :=
  hD.plain p.value_ne_function

/-- The discipline holds of the end of a statement. -/
def OfCompletion (D : Discipline κ) (k : κ) (c : Completion) : Prop :=
  D.OfValue k c.value

/-- The discipline holds of a task. Arguments and a call are always part
of an expression. -/
def OfTask (D : Discipline κ) (k : κ) (env : Env)
    (pending : Option String) : Task → Prop
  | .evaluate e => D.OfExpr k env pending e
  | .evaluateAll es => (∃ e, D.OfExpr k env pending e) ∧
      ∀ e ∈ es, D.OfExpr k env pending e
  | .store node name v => D.OfValue k v ∧
      ∃ value, D.OfExpr k env pending (.assign node name value)
  | .call f args => D.OfValue k f ∧ (∀ a ∈ args, D.OfValue k a) ∧
      ∃ pending e, D.OfExpr k env pending e
  | .perform hand _ => (∀ v ∈ hand, D.OfValue k v) ∧
      ∃ pending e, D.OfExpr k env pending e
  | .execute s => D.OfStmt k env s
  | .executeAll ss => D.OfStmts k env ss
  | .loop test body _ => D.OfExpr k env none test ∧ D.OfStmt k env body

/-- What asks of the text only where it runs holds of any task. -/
theorem ofTask_of_forall {D : Discipline κ} {k : κ} {env : Env}
    {pending : Option String} {task : Task}
    (hexpr : ∀ pending e, D.OfExpr k env pending e)
    (hstmt : ∀ s, D.OfStmt k env s) (hstmts : ∀ ss, D.OfStmts k env ss)
    (hhand : ∀ v ∈ task.hand, D.OfValue k v) :
    D.OfTask k env pending task := by
  let whole : Expr := .literal ⟨0, .start⟩ .nil
  cases task with
  | evaluate e => exact hexpr _ e
  | evaluateAll es => exact ⟨⟨whole, hexpr _ whole⟩, fun e _ => hexpr _ e⟩
  | store node name v =>
    exact ⟨hhand v List.mem_cons_self, whole, hexpr _ _⟩
  | call f args =>
    obtain ⟨hf, hargs⟩ := List.forall_mem_cons.1 hhand
    exact ⟨hf, hargs, none, whole, hexpr _ _⟩
  | perform hand deed => exact ⟨hhand, none, whole, hexpr _ _⟩
  | execute s => exact hstmt s
  | executeAll ss => exact hstmts ss
  | loop test body left => exact ⟨hexpr _ test, hstmt body⟩

/-- The discipline holds at a moment. -/
def Holds (D : Discipline κ) (k : κ) (t : Moment) : Prop :=
  D.OfStore k t.machine.store ∧
    D.OfTask k t.machine.env t.initializing t.task

/-- On the way from the one state to the other, the discipline holds at the
moment and, however its task ends, of what that leaves in the store. -/
def Passes (D : Discipline κ) (setting : Setting) (k last : κ) (t : Moment) :
    Prop :=
  ∃ k' k'', D.Later k k' ∧ D.Holds k' t ∧ D.Later k' k'' ∧
    D.OfStore k'' (t.after setting).store ∧ D.Later k'' last

open Run

/-- The run keeps the discipline: however it ends, there is a state for its
end, of which this holds with its result if it has one; and on the way
there the discipline passes these moments. -/
def Keeps {α : Type} (D : Discipline κ) (setting : Setting)
    (moments : Moment → Prop) (k : κ) (m : Machine) (run : Run α)
    (post : κ → α → Prop) : Prop :=
  ∃ last, D.Later k last ∧ D.OfStore last (finalMachine run m).store ∧
    (∀ a m', run m = .ok a m' → m'.env = m.env ∧ post last a) ∧
    ∀ t, moments t → D.Passes setting k last t

-- ================================================================= rules

section Rules

variable {D : Discipline κ} {setting : Setting}
  {moments others : Moment → Prop} {k k' last : κ} {m m' : Machine}
  {t : Moment} {α β : Type} {run : Run α} {post : κ → α → Prop}

/-- What is passed on from one witness to another is passed on from any
earlier one to any later one. -/
theorem Passes.widen (hD : D.Lawful) {first final : κ}
    (h : D.Passes setting k last t) (hfirst : D.Later first k)
    (hfinal : D.Later last final) : D.Passes setting first final t := by
  obtain ⟨k', k'', hlater, hholds, hlater', hstore, hlast⟩ := h
  exact ⟨k', k'', hD.trans hfirst hlater, hholds, hlater', hstore,
    hD.trans hlast hfinal⟩

theorem Keeps.mono (h : D.Keeps setting moments k m run post)
    (hothers : ∀ t, others t → moments t) :
    D.Keeps setting others k m run post := by
  obtain ⟨last, hlater, hstore, hresult, hmoments⟩ := h
  exact ⟨last, hlater, hstore, hresult, fun t ht =>
    hmoments t (hothers t ht)⟩

/-- It comes upon no moments whose turn it is not. -/
theorem Keeps.barred {turn : Prop} (hturn : ¬ turn)
    (h : D.Keeps setting (fun _ => False) k m run post) :
    D.Keeps setting (fun t => turn ∧ others t) k m run post :=
  h.mono fun _ ht => hturn ht.1

/-- A run with a result that comes upon no moment. -/
theorem Keeps.of_ok {a : α} (hrun : run m = .ok a m')
    (henv : m'.env = m.env) (hlater : D.Later k k')
    (hstore : D.OfStore k' m'.store) (hpost : post k' a) :
    D.Keeps setting (fun _ => False) k m run post := by
  refine ⟨k', hlater, ?_, fun b m'' heq => ?_, fun _ => False.elim⟩
  · rwa [finalMachine_of_ok hrun]
  · rw [hrun] at heq
    cases heq
    exact ⟨henv, hpost⟩

/-- A run that is stopped and comes upon no moment. -/
theorem Keeps.of_error (hD : D.Lawful) {stop : Interruption}
    (hrun : run m = .error stop m') (hstore : D.OfStore k m'.store) :
    D.Keeps setting (fun _ => False) k m run post := by
  refine ⟨k, hD.refl k, ?_, fun b m'' heq => ?_, fun _ => False.elim⟩
  · unfold finalMachine
    rwa [hrun]
  · rw [hrun] at heq
    cases heq

/-- A run that is stopped on the spot. -/
theorem Keeps.stopped (hD : D.Lawful) {stop : Interruption}
    (hrun : run m = .error stop m) (hstore : D.OfStore k m.store) :
    D.Keeps setting (fun _ => False) k m run post :=
  .of_error hD hrun hstore

/-- One run behind another comes upon the moments of both. -/
theorem Keeps.bind (hD : D.Lawful) {f : α → Run β} {post' : κ → β → Prop}
    {Q : α → Machine → Moment → Prop}
    (h : D.Keeps setting moments k m run post)
    (hf : ∀ {k' m' a}, run m = .ok a m' → D.Later k k' →
      D.OfStore k' m'.store → m'.env = m.env → post k' a →
        D.Keeps setting (Q a m') k' m' (f a) post') :
    D.Keeps setting
      (fun t => moments t ∨ ∃ a m', run m = .ok a m' ∧ Q a m' t) k m
      (run >>= f) post' := by
  obtain ⟨k', hlater, hstore, hresult, hmoments⟩ := h
  cases hrun : run m with
  | error stop m' =>
    -- Nothing is begun behind a run that stops.
    refine ⟨k', hlater, ?_, fun b m'' heq => ?_, ?_⟩
    · unfold finalMachine at hstore ⊢
      rw [bind_of_error hrun]
      rwa [hrun] at hstore
    · rw [bind_of_error hrun] at heq
      cases heq
    · rintro t (ht | ⟨a, m'', heq, -⟩)
      · exact hmoments t ht
      · cases heq
  | ok a m' =>
    obtain ⟨henv, hpost⟩ := hresult a m' hrun
    rw [finalMachine_of_ok hrun] at hstore
    obtain ⟨last, hlater', hstore', hresult', hmoments'⟩ :=
      hf hrun hlater hstore henv hpost
    refine ⟨last, hD.trans hlater hlater', ?_, fun b m'' heq => ?_, ?_⟩
    · unfold finalMachine at hstore' ⊢
      rwa [bind_of_ok hrun]
    · rw [bind_of_ok hrun] at heq
      obtain ⟨henv', hpost'⟩ := hresult' b m'' heq
      exact ⟨henv'.trans henv, hpost'⟩
    · rintro t (ht | ⟨b, m'', heq, ht⟩)
      · exact (hmoments t ht).widen hD (hD.refl k) hlater'
      · cases heq
        exact (hmoments' t ht).widen hD hlater (hD.refl last)

/-- Behind a run, steps that come upon no moment. -/
theorem Keeps.finish (hD : D.Lawful) {f : α → Run β} {post' : κ → β → Prop}
    (h : D.Keeps setting moments k m run post)
    (hf : ∀ {k' m' a}, D.Later k k' → D.OfStore k' m'.store →
      m'.env = m.env → post k' a →
        D.Keeps setting (fun _ => False) k' m' (f a) post') :
    D.Keeps setting moments k m (run >>= f) post' :=
  (h.bind hD (Q := fun _ _ _ => False) fun _ => hf).mono fun _ => .inl

theorem Keeps.located {node : Node}
    (h : D.Keeps setting moments k m run post) :
    D.Keeps setting moments k m (located node run) post := by
  obtain ⟨last, hlater, hstore, hresult, hmoments⟩ := h
  refine ⟨last, hlater, ?_, fun a m' heq => ?_, hmoments⟩
  · rwa [finalMachine_located]
  · exact hresult a m' (located_eq_ok.1 heq)

/-- A run in another environment keeps what the run itself keeps there. -/
theorem Keeps.within {env : Env}
    (h : D.Keeps setting moments k { m with env } run post) :
    D.Keeps setting moments k m (within env run) post := by
  obtain ⟨last, hlater, hstore, hresult, hmoments⟩ := h
  refine ⟨last, hlater, ?_, fun a m' heq => ?_, hmoments⟩
  · rwa [finalMachine_within]
  · unfold Run.within at heq
    cases hrun : run { m with env } with
    | error stop after =>
      rw [hrun] at heq
      cases heq
    | ok b after =>
      rw [hrun] at heq
      cases heq
      exact ⟨rfl, (hresult _ after hrun).2⟩

/-- A run that goes on as another from a later state and machine. -/
theorem Keeps.of_step (hD : D.Lawful) {run' : Run α}
    (hlater : D.Later k k') (hstep : run m = run' m')
    (henv : m'.env = m.env) (h : D.Keeps setting moments k' m' run' post) :
    D.Keeps setting moments k m run post := by
  obtain ⟨last, hlater', hstore, hresult, hmoments⟩ := h
  refine ⟨last, hD.trans hlater hlater', ?_, fun a m'' heq => ?_,
    fun t ht => ?_⟩
  · unfold finalMachine at hstore ⊢
    rwa [hstep]
  · rw [hstep] at heq
    obtain ⟨henv', hpost⟩ := hresult a m'' heq
    exact ⟨henv'.trans henv, hpost⟩
  · exact (hmoments t ht).widen hD hlater (hD.refl last)

/-- The moments that one comes upon are reached from those that it
begins. -/
theorem Keeps.of_parts (h : D.Keeps setting moments k m run post)
    (hparts : ∀ t₁ t', Begins setting t t₁ → Reaches setting t₁ t' →
      moments t') :
    D.Keeps setting (Relation.TransGen (Begins setting) t) k m run post := by
  refine h.mono fun t' ht' => ?_
  obtain ⟨t₁, hbegins, hreaches⟩ := Relation.TransGen.head'_iff.1 ht'
  exact hparts t₁ t' hbegins hreaches

/-- A moment that begins nothing comes upon no other. -/
theorem Keeps.alone (h : D.Keeps setting (fun _ => False) k m run post)
    (hnone : ∀ t₁, ¬ Begins setting t t₁) :
    D.Keeps setting (Relation.TransGen (Begins setting) t) k m run post :=
  h.of_parts fun t₁ _ hbegins _ => hnone t₁ hbegins

/-- What is reached from a moment is the moment itself and what it comes
upon. -/
theorem Keeps.reached (hD : D.Lawful) (hholds : D.Holds k t)
    (hafter : t.after setting = finalMachine run t.machine)
    (h : D.Keeps setting (Relation.TransGen (Begins setting) t) k t.machine
      run post) :
    D.Keeps setting (Reaches setting t) k t.machine run post := by
  obtain ⟨last, hlater, hstore, hresult, hmoments⟩ := h
  refine ⟨last, hlater, hstore, hresult, fun t' hreaches => ?_⟩
  rcases Relation.reflTransGen_iff_eq_or_transGen.1 hreaches with rfl | hmore
  · refine ⟨k, last, hD.refl k, hholds, hlater, ?_, hD.refl last⟩
    rwa [hafter]
  · exact hmoments t' hmore

end Rules

-- =============================================================== one room

/-- In this room, whatever runs keeps the discipline, and it passes all
moments on the way. -/
structure KeptInRoom (D : Discipline κ) (setting : Setting) (room : Nat) :
    Prop where
  evaluate : ∀ {k m pending e}, D.Holds k ⟨m, room, pending, .evaluate e⟩ →
    D.Keeps setting (Reaches setting ⟨m, room, pending, .evaluate e⟩) k m
      (evaluate setting room e) D.OfValue
  call : ∀ {k m pending f args},
    D.Holds k ⟨m, room, pending, .call f args⟩ →
      D.Keeps setting (Reaches setting ⟨m, room, pending, .call f args⟩) k m
        (call setting room f args) D.OfValue
  execute : ∀ {k m pending s}, D.Holds k ⟨m, room, pending, .execute s⟩ →
    D.Keeps setting (Reaches setting ⟨m, room, pending, .execute s⟩) k m
      (execute setting room s) D.OfCompletion

section Room

variable {D : Discipline κ} {setting : Setting} {room : Nat} {k : κ}
  {m : Machine} {pending : Option String}

/-- An operation whose result is no function keeps the discipline. -/
theorem Keeps.ofExcept (hD : D.Lawful) {outcome : Except RuntimeFault Value}
    (h : ∀ f, outcome ≠ .ok (.function f)) (hstore : D.OfStore k m.store) :
    D.Keeps setting (fun _ => False) k m (ofExcept outcome) D.OfValue := by
  cases outcome with
  | error fault => exact .of_error hD rfl hstore
  | ok v =>
    exact .of_ok rfl rfl (hD.refl k) hstore
      (hD.plain fun f heq => h f (heq ▸ rfl))

/-- Reading a name yields a value of the store, and the store is lawful. -/
theorem Keeps.readName (hD : D.Lawful) {access : Access}
    (haccess : access.Finds D.Sees) {id : Nat} {name : String} {e : Expr}
    (hstore : D.OfStore k m.store) (he : D.OfExpr k m.env pending e) :
    D.Keeps setting (fun _ => False) k m (readName access id name)
      D.OfValue := by
  have hrun := readName_apply access id name m
  cases hfind : access.find m.store m.env id name with
  | error fault =>
    rw [hfind] at hrun
    exact .of_error hD hrun hstore
  | ok found =>
    rw [hfind] at hrun
    obtain ⟨hbound, hsees⟩ := haccess hfind
    exact .of_ok hrun rfl (hD.refl k) hstore (hD.found hstore he hsees hbound)

/-- An assignment whose value is there. -/
theorem Keeps.store (hD : D.Lawful) (haccess : setting.access.Finds D.Sees)
    {node : Node} {name : String} {v : Value}
    (h : D.Holds k ⟨m, room, pending, .store node name v⟩) :
    D.Keeps setting (Reaches setting ⟨m, room, pending, .store node name v⟩)
      k m (writeName setting.access node.id name v)
      fun k' _ => D.OfValue k' v := by
  refine .reached hD h rfl (.alone ?_ (not_begins_of_idle rfl))
  obtain ⟨hstore, hv, value, he⟩ := h
  have hrun := writeName_apply setting.access node.id name v m
  cases hfind : setting.access.find m.store m.env node.id name with
  | error fault =>
    rw [hfind] at hrun
    exact .of_error hD hrun hstore
  | ok found =>
    rw [hfind] at hrun
    obtain ⟨hbound, hsees⟩ := haccess hfind
    obtain ⟨k', hlater, hstore'⟩ := hD.assigned hstore he hsees hbound hv
    exact .of_ok hrun rfl hlater hstore' (hD.value_later hlater hv)

variable (hkept : KeptInRoom D setting room) (hD : D.Lawful)

include hkept hD

/-- By induction on the list. The rest of the list is a moment the list
reaches, with a later witness than it began with. -/
theorem KeptInRoom.evaluateAll {es : List Expr}
    (h : D.Holds k ⟨m, room, pending, .evaluateAll es⟩) :
    D.Keeps setting (Reaches setting ⟨m, room, pending, .evaluateAll es⟩) k m
      (each (Lox.evaluate setting room) es)
      fun k' vs => ∀ v ∈ vs, D.OfValue k' v := by
  -- The induction is on the expressions: those behind the first are a task of
  -- their own.
  induction es generalizing k m with
  | nil =>
    refine .reached hD h rfl (.alone ?_ (not_begins_of_idle rfl))
    exact .of_ok rfl rfl (hD.refl k) h.1 fun _ hv =>
      absurd hv List.not_mem_nil
  | cons e es ih =>
    refine .reached hD h rfl ?_
    obtain ⟨hstore, ⟨whole, hwhole⟩, hes⟩ := h
    rw [List.forall_mem_cons] at hes
    obtain ⟨he, hes⟩ := hes
    refine .of_parts ((hkept.evaluate ⟨hstore, he⟩).bind hD
      (Q := fun _ m₁ => Reaches setting ⟨m₁, room, pending, .evaluateAll es⟩)
      fun {k₁ m₁ v} _ hlater₁ hstore₁ henv₁ hv => ?_) ?_
    · have hes₁ : ∀ e ∈ es, D.OfExpr k₁ m₁.env pending e := fun e he =>
        henv₁ ▸ hD.expr_later hlater₁ (hes e he)
      have hwhole₁ := henv₁ ▸ hD.expr_later hlater₁ hwhole
      refine (ih ⟨hstore₁, ⟨whole, hwhole₁⟩, hes₁⟩).finish hD
        fun {k₂ m₂ vs} hlater₂ hstore₂ _ hvs => ?_
      exact .of_ok rfl rfl (hD.refl k₂) hstore₂
        (List.forall_mem_cons.2 ⟨hD.value_later hlater₂ hv, hvs⟩)
    · intro t₁ t' hbegins hreaches
      cases hbegins with
      | firstArg => exact .inl hreaches
      | moreArgs hrun => exact .inr ⟨_, _, hrun, hreaches⟩

theorem KeptInRoom.executeAll {ss : List Stmt}
    (h : D.Holds k ⟨m, room, pending, .executeAll ss⟩) :
    D.Keeps setting (Reaches setting ⟨m, room, pending, .executeAll ss⟩) k m
      (untilReturn (Lox.execute setting room) ss) D.OfCompletion := by
  induction ss generalizing k m pending with
  | nil =>
    refine .reached hD h rfl (.alone ?_ (not_begins_of_idle rfl))
    exact .of_ok rfl rfl (hD.refl k) h.1 hD.nil
  | cons s ss ih =>
    refine .reached hD h rfl ?_
    obtain ⟨hstore, hss⟩ := h
    have hfirst : D.Holds k ⟨m, room, none, .execute s⟩ :=
      ⟨hstore, hD.head hss⟩
    refine .of_parts ((hkept.execute hfirst).bind hD
      (Q := fun completion m₁ t' => completion = .normal ∧
        Reaches setting ⟨m₁, room, none, .executeAll ss⟩ t')
      fun {k₁ m₁ completion} _ hlater₁ hstore₁ henv₁ hv => ?_) ?_
    · cases completion with
      | normal =>
        refine (ih ⟨hstore₁, ?_⟩).mono fun _ ht => ht.2
        exact henv₁ ▸ hD.stmts_later hlater₁ (hD.tail hss)
      | returned v =>
        exact .barred (fun heq => by cases heq)
          (.of_ok rfl rfl (hD.refl k₁) hstore₁ hv)
    · intro t₁ t' hbegins hreaches
      cases hbegins with
      | firstStmt => exact .inl hreaches
      | moreStmts hrun => exact .inr ⟨_, _, hrun, rfl, hreaches⟩

theorem KeptInRoom.loop {test : Expr} {body : Stmt} {rounds : Nat}
    (h : D.Holds k ⟨m, room, pending, .loop test body rounds⟩) :
    D.Keeps setting
      (Reaches setting ⟨m, room, pending, .loop test body rounds⟩) k m
      (repeatWhile (return (← Lox.evaluate setting room test).truthy)
        (Lox.execute setting room body) rounds) D.OfCompletion := by
  -- The induction is on the rounds that are left, in one environment.
  induction rounds generalizing k m pending with
  | zero => exact .reached hD h rfl (.alone (.stopped hD rfl h.1)
      (not_begins_of_idle rfl))
  | succ rounds ih =>
    refine .reached hD h rfl ?_
    obtain ⟨hstore, htest, hbody⟩ := h
    have hfirst : D.Holds k ⟨m, room, none, .evaluate test⟩ :=
      ⟨hstore, htest⟩
    have hagain : D.Keeps setting
        (Reaches setting ⟨m, room, none, .evaluate test⟩) k m
        (return (← Lox.evaluate setting room test).truthy)
        fun _ (_ : Bool) => True :=
      (hkept.evaluate hfirst).finish hD fun {k₁ _ _} _ hstore₁ _ _ =>
        .of_ok rfl rfl (hD.refl k₁) hstore₁ trivial
    unfold repeatWhile
    refine .of_parts (hagain.bind hD
      (Q := fun again m₁ t' => again = true ∧
        (Reaches setting ⟨m₁, room, none, .execute body⟩ t' ∨
          ∃ completion m₂,
            Lox.execute setting room body m₁ = .ok completion m₂ ∧
              completion = .normal ∧
              Reaches setting ⟨m₂, room, none, .loop test body rounds⟩ t'))
      fun {k₁ m₁ again} _ hlater₁ hstore₁ henv₁ _ => ?_) ?_
    · cases again with
      | false =>
        exact .barred Bool.false_ne_true
          (.of_ok rfl rfl (hD.refl k₁) hstore₁ hD.nil)
      | true =>
        have hnext : D.Holds k₁ ⟨m₁, room, none, .execute body⟩ :=
          ⟨hstore₁, henv₁ ▸ hD.stmt_later hlater₁ hbody⟩
        refine Keeps.mono ((hkept.execute hnext).bind hD
          fun {k₂ m₂ completion} _ hlater₂ hstore₂ henv₂ hv => ?_)
          fun _ ht => ht.2
        cases completion with
        | normal =>
          have henv := henv₂.trans henv₁
          have hlater := hD.trans hlater₁ hlater₂
          refine (ih ⟨hstore₂, ?_, ?_⟩).mono fun _ ht => ht.2
          · exact henv ▸ hD.expr_later hlater htest
          · exact henv ▸ hD.stmt_later hlater hbody
        | returned v =>
          exact .barred (fun heq => by cases heq)
            (.of_ok rfl rfl (hD.refl k₂) hstore₂ hv)
    · intro t₁ t' hbegins hreaches
      -- A moment has the value of the test, the loop only whether it is true.
      have htrue {v : Value} {m' : Machine}
          (hrun : Lox.evaluate setting room test m = .ok v m')
          (htruthy : v.truthy = true) :
          (do return (← Lox.evaluate setting room test).truthy : Run Bool) m
            = .ok true m' := by
        rw [bind_of_ok hrun, htruthy]
        rfl
      cases hbegins with
      | loopTest => exact .inl hreaches
      | loopBody hrun htruthy =>
        exact .inr ⟨_, _, htrue hrun htruthy, rfl, .inl hreaches⟩
      | again hrun htruthy hbody =>
        exact .inr ⟨_, _, htrue hrun htruthy, rfl,
          .inr ⟨_, _, hbody, rfl, hreaches⟩⟩

theorem KeptInRoom.evaluate_succ (haccess : setting.access.Finds D.Sees)
    {e : Expr} (h : D.Holds k ⟨m, room + 1, pending, .evaluate e⟩) :
    D.Keeps setting (Reaches setting ⟨m, room + 1, pending, .evaluate e⟩) k m
      (Lox.evaluate setting (room + 1) e) D.OfValue := by
  refine .reached hD h rfl ?_
  obtain ⟨hstore, he⟩ := h
  have hpart (part : Expr) (hmem : part ∈ e.parts) :
      D.Holds k ⟨m, room, pending, .evaluate part⟩ :=
    ⟨hstore, hD.part he part hmem⟩
  -- A later part runs in the same environment.
  have hnext {k₁ : κ} {m₁ : Machine} (part : Expr) (hmem : part ∈ e.parts)
      (hlater₁ : D.Later k k₁) (hstore₁ : D.OfStore k₁ m₁.store)
      (henv₁ : m₁.env = m.env) :
      D.Holds k₁ ⟨m₁, room, pending, .evaluate part⟩ :=
    ⟨hstore₁, henv₁ ▸ hD.expr_later hlater₁ (hD.part he part hmem)⟩
  unfold Lox.evaluate
  refine .located ?_
  cases e with
  | literal node value =>
    refine .alone ?_ (not_begins_of_idle rfl)
    exact .of_ok rfl rfl (hD.refl k) hstore (hD.plain value.value_ne_function)
  | var node name =>
    exact .alone (.readName hD haccess hstore he) (not_begins_of_idle rfl)
  | assign node name value =>
    have hvalue := hkept.evaluate (hpart value (by simp [Expr.parts]))
    refine .of_parts (hvalue.bind hD
      (Q := fun v m₁ => Reaches setting ⟨m₁, room, pending, .store node name v⟩)
      fun {k₁ m₁ v} _ hlater₁ hstore₁ henv₁ hv => ?_) ?_
    · have hthere : D.Holds k₁ ⟨m₁, room, pending, .store node name v⟩ :=
        ⟨hstore₁, hv, value, henv₁ ▸ hD.expr_later hlater₁ he⟩
      exact (Keeps.store hD haccess hthere).finish hD
        fun {k₂ _ _} _ hstore₂ _ hv =>
          .of_ok rfl rfl (hD.refl k₂) hstore₂ hv
    · intro t₁ t' hbegins hreaches
      cases hbegins with
      | assigned => exact .inl hreaches
      | store hrun => exact .inr ⟨_, _, hrun, hreaches⟩
  | group node inner =>
    refine (hkept.evaluate (hpart inner (by simp [Expr.parts]))).of_parts ?_
    intro t₁ t' hbegins hreaches
    cases hbegins with
    | inner => exact hreaches
  | unary node op operand =>
    have hoperand := hkept.evaluate (hpart operand (by simp [Expr.parts]))
    refine .of_parts (hoperand.finish hD fun {_ _ v} _ hstore₁ _ _ =>
      .ofExcept hD (op.apply_ne_function v) hstore₁) ?_
    intro t₁ t' hbegins hreaches
    cases hbegins with
    | operand => exact hreaches
  | binary node op left right =>
    have hleft := hkept.evaluate (hpart left (by simp [Expr.parts]))
    refine .of_parts (hleft.bind hD
      (Q := fun _ m₁ => Reaches setting ⟨m₁, room, pending, .evaluate right⟩)
      fun {k₁ m₁ a} _ hlater₁ hstore₁ henv₁ _ => ?_) ?_
    · have hright := hnext right (by simp [Expr.parts]) hlater₁ hstore₁ henv₁
      exact (hkept.evaluate hright).finish hD fun {_ _ b} _ hstore₂ _ _ =>
        .ofExcept hD (op.apply_ne_function a b) hstore₂
    · intro t₁ t' hbegins hreaches
      cases hbegins with
      | left => exact .inl hreaches
      | right hrun => exact .inr ⟨_, _, hrun, hreaches⟩
  | logical node op left right =>
    have hleft := hkept.evaluate (hpart left (by simp [Expr.parts]))
    refine .of_parts (hleft.bind hD
      (Q := fun a m₁ t' => op.decidedBy a = false ∧
        Reaches setting ⟨m₁, room, pending, .evaluate right⟩ t')
      fun {k₁ m₁ a} _ hlater₁ hstore₁ henv₁ ha => ?_) ?_
    · cases op.decidedBy a with
      | true =>
        exact .barred (fun heq => by cases heq)
          (.of_ok rfl rfl (hD.refl k₁) hstore₁ ha)
      | false =>
        have hright := hnext right (by simp [Expr.parts]) hlater₁ hstore₁ henv₁
        exact (hkept.evaluate hright).mono fun _ ht => ht.2
    · intro t₁ t' hbegins hreaches
      cases hbegins with
      | first => exact .inl hreaches
      | second hrun hdecided =>
        exact .inr ⟨_, _, hrun, hdecided, hreaches⟩
  | call node argsId callee args =>
    have hcallee := hkept.evaluate (hpart callee (by simp [Expr.parts]))
    refine .of_parts (hcallee.bind hD
      (Q := fun f m₁ t' => f.callable = true ∧
        (Reaches setting ⟨m₁, room, pending, .evaluateAll args⟩ t' ∨
          ∃ values m₂,
            each (Lox.evaluate setting room) args m₁ = .ok values m₂ ∧
              Reaches setting ⟨m₂, room, none, .call f values⟩ t'))
      fun {k₁ m₁ f} _ hlater₁ hstore₁ henv₁ hf => ?_) ?_
    · cases hcallable : f.callable with
      | false =>
        exact .barred Bool.false_ne_true (.stopped hD rfl hstore₁)
      | true =>
        have hall : D.Holds k₁ ⟨m₁, room, pending, .evaluateAll args⟩ :=
          ⟨hstore₁, ⟨_, henv₁ ▸ hD.expr_later hlater₁ he⟩, fun arg harg =>
            (hnext arg (by simp [Expr.parts, harg]) hlater₁ hstore₁ henv₁).2⟩
        refine Keeps.mono ((hkept.evaluateAll hD hall).bind hD
          fun {k₂ m₂ values} _ hlater₂ hstore₂ henv₂ hvalues => ?_)
          fun _ ht => ht.2
        have henv := henv₂.trans henv₁
        have hlater := hD.trans hlater₁ hlater₂
        exact hkept.call ⟨hstore₂, hD.value_later hlater₂ hf, hvalues,
          pending, _, henv ▸ hD.expr_later hlater he⟩
    · intro t₁ t' hbegins hreaches
      cases hbegins with
      | callee => exact .inl hreaches
      | args hrun hcallable =>
        exact .inr ⟨_, _, hrun, hcallable, .inl hreaches⟩
      | call hrun hcallable hargs =>
        exact .inr ⟨_, _, hrun, hcallable, .inr ⟨_, _, hargs, hreaches⟩⟩

/-- A native keeps the discipline by what it calls. What it has in hand is
kept by what it has called before. -/
theorem KeptInRoom.perform {hand : List Value} {deed : Deed}
    (h : D.Holds k ⟨m, room, pending, .perform hand deed⟩) :
    D.Keeps setting (Reaches setting ⟨m, room, pending, .perform hand deed⟩)
      k m (Run.perform readClock printLine (Lox.call setting room) hand deed)
      D.OfValue := by
  induction deed generalizing k m pending hand with
  | give v =>
    refine .reached hD h rfl (.alone ?_ (not_begins_of_idle rfl))
    exact .of_ok rfl rfl (hD.refl k) h.1 (v.value_of_forall hD.own h.2.1)
  | look next ih =>
    have hnext : D.Holds k ⟨m.afterLook, room, none,
        .perform hand (next m.clock.now)⟩ := h
    have hrest := ih m.clock.now hnext
    refine .reached hD h rfl
      (.of_parts (.of_step hD (hD.refl k) rfl rfl hrest) ?_)
    intro t₁ t' hbegins hreaches
    cases hbegins with
    | looked => exact hreaches
  | print line next ih =>
    have hnext : D.Holds k ⟨m.afterPrint line, room, none,
        .perform hand next⟩ := h
    have hrest := ih hnext
    refine .reached hD h rfl
      (.of_parts (.of_step hD (hD.refl k) rfl rfl hrest) ?_)
    intro t₁ t' hbegins hreaches
    cases hbegins with
    | printed => exact hreaches
  | call f args next ih =>
    refine .reached hD h rfl ?_
    obtain ⟨hstore, hhand, hexpr⟩ := h
    have hasked : D.Holds k ⟨m, room, none,
        .call (f.value hand) (args.map (·.value hand))⟩ :=
      ⟨hstore, f.value_of_forall hD.own hhand,
        Handed.values_of_forall hD.own hhand args, hexpr⟩
    refine .of_parts ((hkept.call hasked).bind hD
      (Q := fun v m₁ => Reaches setting
        ⟨m₁, room, none, .perform (hand ++ [v]) (next v.sight)⟩)
      fun {k₁ m₁ v} _ hlater₁ hstore₁ henv₁ hv => ?_) ?_
    · have hhand₁ : ∀ u ∈ hand ++ [v], D.OfValue k₁ u :=
        List.forall_mem_append.2 ⟨fun u hu => hD.value_later hlater₁
          (hhand u hu), List.forall_mem_singleton.2 hv⟩
      obtain ⟨pending', e, he⟩ := hexpr
      exact ih v.sight ⟨hstore₁, hhand₁, pending', e,
        henv₁ ▸ hD.expr_later hlater₁ he⟩
    · intro t₁ t' hbegins hreaches
      cases hbegins with
      | asked => exact .inl hreaches
      | answered hrun => exact .inr ⟨_, _, hrun, hreaches⟩

/-- A closure's body runs in a new environment, which is where the witness
grows. A native's steps keep what its calls keep. -/
theorem KeptInRoom.call_succ {f : Value} {args : List Value}
    (h : D.Holds k ⟨m, room + 1, pending, .call f args⟩) :
    D.Keeps setting (Reaches setting ⟨m, room + 1, pending, .call f args⟩) k m
      (Lox.call setting (room + 1) f args) D.OfValue := by
  refine .reached hD h rfl ?_
  obtain ⟨hstore, hf, hargs, hexpr⟩ := h
  unfold Lox.call
  cases f with
  | function f =>
    by_cases harity : args.length = f.params.length
    · have hcheck := checkArity_of_eq (m := m) harity
      obtain ⟨k', hlater, hstore', hbody⟩ := hD.body hstore hf harity hargs
      let store := m.store.grow.defineAll (m.store.newChild f.closure).1
        (f.params.zip args)
      have hbegun : D.Holds k'
          ⟨m.inBody f args, room, none, .executeAll f.body⟩ :=
        ⟨hstore', hbody⟩
      have hrun : D.Keeps setting
          (Reaches setting ⟨m.inBody f args, room, none, .executeAll f.body⟩)
          k' { m with store }
          (within (m.store.newChild f.closure).1
            (untilReturn (Lox.execute setting room) f.body))
          D.OfCompletion :=
        .within (hkept.executeAll hD hbegun)
      refine .of_parts (.of_step hD hlater (bind_of_ok hcheck) rfl
        (hrun.finish hD fun {k₁ _ _} _ hstore₁ _ hv =>
          .of_ok rfl rfl (hD.refl k₁) hstore₁ hv)) ?_
      intro t₁ t' hbegins hreaches
      cases hbegins with
      | body => exact hreaches
    -- With another number of arguments nothing is begun.
    · refine .alone (.of_error hD (bind_of_error (checkArity_of_ne harity))
        hstore) fun t₁ hbegins => ?_
      cases hbegins with
      | body hlength => exact harity hlength
  | native f =>
    by_cases harity : args.length = f.arity
    · have hcheck := checkArity_of_eq (m := m) harity
      have hbegun : D.Holds k ⟨m, room, none,
          .perform args (f.action.deed (args.map Value.sight))⟩ :=
        ⟨hstore, hargs, hexpr⟩
      refine .of_parts (.of_step hD (hD.refl k) (bind_of_ok hcheck) rfl
        (hkept.perform hD hbegun)) ?_
      intro t₁ t' hbegins hreaches
      cases hbegins with
      | native => exact hreaches
    · refine .alone (.of_error hD (bind_of_error (checkArity_of_ne harity))
        hstore) fun t₁ hbegins => ?_
      cases hbegins with
      | native hlength => exact harity hlength
  | _ =>
    refine .alone ?_ (not_begins_of_idle rfl)
    exact .stopped hD rfl hstore

theorem KeptInRoom.execute_succ {s : Stmt}
    (h : D.Holds k ⟨m, room + 1, pending, .execute s⟩) :
    D.Keeps setting (Reaches setting ⟨m, room + 1, pending, .execute s⟩) k m
      (Lox.execute setting (room + 1) s) D.OfCompletion := by
  refine .reached hD h rfl ?_
  obtain ⟨hstore, hs⟩ := h
  have hpart (e : Expr) (he : e ∈ s.exprs) :
      D.Holds k ⟨m, room, s.pendingIn m.env, .evaluate e⟩ :=
    ⟨hstore, hD.exprs hs e he⟩
  -- A branch runs in the same environment.
  have hnext {k₁ : κ} {m₁ : Machine} (branch : Stmt)
      (hmem : branch ∈ s.branches) (hlater₁ : D.Later k k₁)
      (hstore₁ : D.OfStore k₁ m₁.store) (henv₁ : m₁.env = m.env) :
      D.Holds k₁ ⟨m₁, room, none, .execute branch⟩ :=
    ⟨hstore₁, henv₁ ▸ hD.stmt_later hlater₁ (hD.branch hs branch hmem)⟩
  unfold Lox.execute
  refine .located ?_
  cases s with
  | expr node value =>
    have hvalue := hkept.evaluate (hpart value (by simp [Stmt.exprs]))
    refine .of_parts (hvalue.finish hD fun {k₁ _ _} _ hstore₁ _ _ =>
      .of_ok rfl rfl (hD.refl k₁) hstore₁ hD.nil) ?_
    intro t₁ t' hbegins hreaches
    cases hbegins with
    | expr => exact hreaches
  | print node value =>
    have hvalue := hkept.evaluate (hpart value (by simp [Stmt.exprs]))
    refine .of_parts (hvalue.finish hD
      fun {k₁ m₁ v} _ hstore₁ _ _ => ?_) ?_
    · let printed : Machine :=
        { m₁ with output := m₁.output ++ v.printed ++ "\n" }
      have hrun : (printLine v.printed >>= fun _ => pure Completion.normal) m₁
          = .ok .normal printed := rfl
      exact .of_ok hrun rfl (hD.refl k₁) hstore₁ hD.nil
    · intro t₁ t' hbegins hreaches
      cases hbegins with
      | print => exact hreaches
  | varDecl node name init =>
    cases init with
    | none =>
      obtain ⟨k', hlater, hdefined⟩ := hD.defined hstore hs hD.nil
      refine .alone ?_ (not_begins_of_idle rfl)
      exact .of_ok rfl rfl hlater hdefined hD.nil
    | some e =>
      refine .of_parts ((hkept.evaluate (hpart e (by simp [Stmt.exprs]))).finish
        hD fun {k₁ m₁ v} hlater₁ hstore₁ henv₁ hv => ?_) ?_
      · have hs₁ := henv₁ ▸ hD.stmt_later hlater₁ hs
        obtain ⟨k', hlater, hdefined⟩ := hD.defined hstore₁ hs₁ hv
        exact .of_ok rfl rfl hlater hdefined hD.nil
      · intro t₁ t' hbegins hreaches
        cases hbegins with
        | initializer => exact hreaches
  | funDecl node name paramsId params bodyNode body =>
    obtain ⟨k', hlater, hdeclared⟩ := hD.declared hstore hs
    refine .alone ?_ (not_begins_of_idle rfl)
    exact .of_ok rfl rfl hlater hdeclared hD.nil
  | block node body =>
    obtain ⟨k', hlater, hstore', hbody⟩ := hD.block hstore hs
    let grown : Machine := { m with store := m.store.grow }
    have hbegun : D.Holds k' ⟨m.inBlock, room, none, .executeAll body⟩ :=
      ⟨hstore', hbody⟩
    have hrun : D.Keeps setting
        (Reaches setting ⟨m.inBlock, room, none, .executeAll body⟩) k' grown
        (within (m.store.newChild m.env).1
          (untilReturn (Lox.execute setting room) body)) D.OfCompletion :=
      .within (hkept.executeAll hD hbegun)
    refine .of_parts (.of_step hD hlater rfl rfl hrun) ?_
    intro t₁ t' hbegins hreaches
    cases hbegins with
    | block => exact hreaches
  | cond node test yes no =>
    refine .of_parts ((hkept.evaluate (hpart test (by simp [Stmt.exprs]))).bind
      hD (Q := fun v m₁ t' =>
        (v.truthy = true ∧ Reaches setting ⟨m₁, room, none, .execute yes⟩ t') ∨
        (v.truthy = false ∧ ∃ other, no = some other ∧
          Reaches setting ⟨m₁, room, none, .execute other⟩ t'))
      fun {k₁ m₁ v} _ hlater₁ hstore₁ henv₁ _ => ?_) ?_
    · cases v.truthy with
      | true =>
        have hyes := hnext yes (by simp [Stmt.branches]) hlater₁ hstore₁ henv₁
        refine (hkept.execute hyes).mono ?_
        rintro t' (⟨-, ht⟩ | ⟨⟨⟩, -⟩)
        exact ht
      | false =>
        cases no with
        | none =>
          refine Keeps.mono (.of_ok rfl rfl (hD.refl k₁) hstore₁ hD.nil) ?_
          rintro t' (⟨⟨⟩, -⟩ | ⟨-, _, ⟨⟩, -⟩)
        | some other =>
          have hother :=
            hnext other (by simp [Stmt.branches]) hlater₁ hstore₁ henv₁
          refine (hkept.execute hother).mono ?_
          rintro t' (⟨⟨⟩, -⟩ | ⟨-, _, ⟨⟩, ht⟩)
          exact ht
    · intro t₁ t' hbegins hreaches
      cases hbegins with
      | test => exact .inl hreaches
      | yes hrun htruthy =>
        exact .inr ⟨_, _, hrun, .inl ⟨htruthy, hreaches⟩⟩
      | no hrun htruthy =>
        exact .inr ⟨_, _, hrun, .inr ⟨htruthy, _, rfl, hreaches⟩⟩
  | loop node test body =>
    have hbegun : D.Holds k ⟨m, room, none, .loop test body setting.rounds⟩ :=
      ⟨hstore, (hpart test (by simp [Stmt.exprs])).2,
        hD.branch hs body (by simp [Stmt.branches])⟩
    refine (hkept.loop hD hbegun).of_parts ?_
    intro t₁ t' hbegins hreaches
    cases hbegins with
    | loop => exact hreaches
  | ret node value =>
    cases value with
    | none =>
      refine .alone ?_ (not_begins_of_idle rfl)
      exact .of_ok rfl rfl (hD.refl k) hstore hD.nil
    | some e =>
      refine .of_parts ((hkept.evaluate (hpart e (by simp [Stmt.exprs]))).finish
        hD fun {k₁ _ _} _ hstore₁ _ hv =>
          .of_ok rfl rfl (hD.refl k₁) hstore₁ hv) ?_
      intro t₁ t' hbegins hreaches
      cases hbegins with
      | ret => exact hreaches

end Room

/-- In any room, what a lawful discipline asks for at a moment it asks for at
every moment reached from there. The induction is on the room. -/
theorem keptInRoom {D : Discipline κ} (hD : D.Lawful) {setting : Setting}
    (haccess : setting.access.Finds D.Sees) (room : Nat) :
    D.KeptInRoom setting room := by
  induction room with
  | zero =>
    refine ⟨fun h => .reached hD h rfl (.alone ?_ (not_begins_of_idle rfl)),
      fun h => .reached hD h rfl (.alone ?_ (not_begins_of_idle rfl)),
      fun h => .reached hD h rfl (.alone ?_ (not_begins_of_idle rfl))⟩
    · unfold evaluate
      exact .stopped hD rfl h.1
    · unfold call
      exact .stopped hD rfl h.1
    · unfold execute
      exact .stopped hD rfl h.1
  | succ room ih =>
    exact ⟨ih.evaluate_succ hD haccess, ih.call_succ hD, ih.execute_succ hD⟩

-- =============================================================== moments

section Moments

variable {D : Discipline κ} {setting : Setting} {k : κ} {t t' : Moment}

/-- There is one state for the end of the task, however it ends, and on the
way there the discipline passes all moments that are reached. -/
theorem Holds.course (hD : D.Lawful) (haccess : setting.access.Finds D.Sees)
    (h : D.Holds k t) :
    ∃ last, D.Later k last ∧ D.OfStore last (t.after setting).store ∧
      ∀ t', Reaches setting t t' → D.Passes setting k last t' := by
  obtain ⟨m, room, pending, task⟩ := t
  have hkept := keptInRoom hD haccess room
  -- Whatever the task is, its end is that of a run.
  have hcourse {α : Type} {run : Run α} {post : κ → α → Prop}
      (hafter : Moment.after setting ⟨m, room, pending, task⟩
        = finalMachine run m)
      (h : D.Keeps setting (Reaches setting ⟨m, room, pending, task⟩) k m run
        post) :
      ∃ last, D.Later k last ∧
        D.OfStore last (Moment.after setting ⟨m, room, pending, task⟩).store ∧
        ∀ t', Reaches setting ⟨m, room, pending, task⟩ t' →
          D.Passes setting k last t' := by
    obtain ⟨last, hlater, hstore, -, hmoments⟩ := h
    rw [← hafter] at hstore
    exact ⟨last, hlater, hstore, hmoments⟩
  cases task with
  | evaluate e => exact hcourse rfl (hkept.evaluate h)
  | evaluateAll es => exact hcourse rfl (hkept.evaluateAll hD h)
  | store node name v => exact hcourse rfl (.store hD haccess h)
  | call f args => exact hcourse rfl (hkept.call h)
  | perform hand deed => exact hcourse rfl (hkept.perform hD h)
  | execute s => exact hcourse rfl (hkept.execute h)
  | executeAll ss => exact hcourse rfl (hkept.executeAll hD h)
  | loop test body left => exact hcourse rfl (hkept.loop hD h)

/-- Whatever is reached keeps what the start keeps. -/
theorem Holds.reaches (hD : D.Lawful) (haccess : setting.access.Finds D.Sees)
    (h : D.Holds k t) (hreaches : Reaches setting t t') :
    ∃ k', D.Later k k' ∧ D.Holds k' t' := by
  obtain ⟨last, -, -, hmoments⟩ := h.course hD haccess
  obtain ⟨k', -, hlater, hholds, -⟩ := hmoments t' hreaches
  exact ⟨k', hlater, hholds⟩

/-- However the task of a moment ends, what it leaves in the store keeps
what the moment keeps. -/
theorem Holds.after (hD : D.Lawful) (haccess : setting.access.Finds D.Sees)
    (h : D.Holds k t) :
    ∃ k', D.Later k k' ∧ D.OfStore k' (t.after setting).store := by
  obtain ⟨last, hlater, hstore, -⟩ := h.course hD haccess
  exact ⟨last, hlater, hstore⟩

end Moments

/-- A program leaves what its statements leave, also if one of them
returns. -/
theorem finalMachine_runProgram (setting : Setting) (room : Nat)
    (program : List Stmt) (m : Machine) :
    finalMachine (Lox.runProgram setting room program) m
      = Moment.after setting ⟨m, room, none, .executeAll program⟩ := by
  show _ = finalMachine (untilReturn (execute setting room) program) m
  unfold finalMachine Lox.runProgram
  rw [bind_apply]
  rcases untilReturn (execute setting room) program m with
    ⟨completion, m'⟩ | ⟨stop, m'⟩
  · cases completion <;> rfl
  · rfl

/-- However a program ends, what it leaves in the store keeps the
discipline. -/
theorem Lawful.runProgram {D : Discipline κ} (hD : D.Lawful)
    {setting : Setting} (haccess : setting.access.Finds D.Sees)
    {room : Nat} {k : κ} {m : Machine} {program : List Stmt}
    (hstore : D.OfStore k m.store)
    (hprogram : D.OfStmts k m.env program) :
    ∃ k', D.Later k k' ∧ D.OfStore k'
      (finalMachine (runProgram setting room program) m).store := by
  have hholds : D.Holds k ⟨m, room, none, .executeAll program⟩ :=
    ⟨hstore, hprogram⟩
  rw [finalMachine_runProgram]
  exact hholds.after hD haccess

-- =================================================== what the text says

/-- A property of all expressions of the program, also in the functions
that are stored. -/
def throughout (P : Expr → Prop) : Discipline Unit where
  Later _ _ := True
  OfStore _ s := s.All fun v => ∀ f, v = .function f →
    Stmt.AllThroughout P f.body
  OfValue _ v := ∀ f, v = .function f → Stmt.AllThroughout P f.body
  OfExpr _ _ _ e := e.Throughout P
  OfStmt _ _ s := s.Throughout P
  OfStmts _ _ ss := Stmt.AllThroughout P ss

/-- What holds throughout the program is kept. -/
theorem throughout_lawful (P : Expr → Prop) : (throughout P).Lawful where
  refl _ := trivial
  trans _ _ := trivial
  value_later _ h := h
  expr_later _ h := h
  stmt_later _ h := h
  stmts_later _ h := h
  plain h f heq := absurd heq (h f)
  found h _ _ hv := h _ _ _ hv
  assigned h _ _ _ hv := ⟨(), trivial, h.bind hv⟩
  part h := h.part
  exprs h := h.expr
  branch h := h.branch
  head h := h.1
  tail h := h.2
  defined h _ hv := ⟨(), trivial, h.bind hv⟩
  declared h hs := by
    refine ⟨(), trivial, h.bind fun f heq => ?_⟩
    cases heq
    exact hs
  block h hs := ⟨(), trivial, h.grow, hs⟩
  body h hf _ hargs :=
    ⟨(), trivial, h.grow.defineAll fun p hp => hargs _ (List.of_mem_zip hp).2,
      hf _ rfl⟩

end Discipline

end Lox
