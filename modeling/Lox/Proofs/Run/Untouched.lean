/-
What a run leaves as it is. There are two reasons why a scope that is
there is not touched.

# It is out of reach

A run starts with an environment and some values in hand. Whatever it
comes upon later is the closure of a function that a scope within reach
binds, or new (`Machine.Reachable`). To what is out of reach no way is
opened on the way: a value that is bound comes from within reach itself.
So nothing out of reach changes (`Moment.bindings_kept`).

# Nothing that runs is inside of it

A scope may be within reach and still not be looked into: another
function binds its variables there, and is not called. If the run is
outside of the scope and no function that was declared inside of it is
called, the scope does not change (`Moment.bindings_kept_outside`). Then
no use finds anything there, so the run is the same with an access that
never does (`Access.past`), and such a run binds nothing there.
-/
import Lox.Proofs.Run.Links
import Lox.Proofs.Run.Names

namespace Lox

open Run

-- ================================================================== reach

/-- A run with these values in hand can come to the scope: by an
environment that it starts from, or by the closure of a function that a
scope within reach binds. -/
inductive Machine.Reachable (m : Machine) (hand : List Value) : Nat → Prop
  where
  | root {env : Env} {scope : Nat} :
      m.Root hand env → scope ∈ env.chain → Reachable m hand scope
  | closure {binder scope : Nat} {env : Env} :
      Reachable m hand binder → m.store.Closes binder env →
        scope ∈ env.chain → Reachable m hand scope

/-- The task of the moment can come to the scope. -/
def Moment.Reachable (t : Moment) (scope : Nat) : Prop :=
  t.machine.Reachable t.task.hand scope

-- ================================================================= hiding

/-- No scope of the environment is hidden. -/
def Env.Avoids (hidden : Nat → Prop) (env : Env) : Prop :=
  ∀ scope ∈ env.chain, ¬ hidden scope

/-- No scope of the closure is hidden, if the value has one. -/
def Value.Avoids (hidden : Nat → Prop) (v : Value) : Prop :=
  ∀ f, v = .function f → f.closure.Avoids hidden

/-- The hidden scopes bind what they did in an earlier store, and no
scope that is not hidden leads to them. -/
structure Store.Hides (hidden : Nat → Prop) (s s₀ : Store) : Prop where
  size_le : s₀.size ≤ s.size
  kept : ∀ scope, hidden scope → s.bindings scope = s₀.bindings scope
  apart : ∀ binder env, ¬ hidden binder → s.Closes binder env →
    env.Avoids hidden

namespace Store.Hides

variable {hidden : Nat → Prop} {s₀ s : Store}

theorem bind (h : s.Hides hidden s₀) {scope : Nat} (hscope : ¬ hidden scope)
    {v : Value} (hv : v.Avoids hidden) (name : String) :
    (s.bind scope name v).Hides hidden s₀ where
  size_le := by
    rw [size_bind]
    exact h.size_le
  kept other hother := by
    have hne : scope ≠ other := fun heq => hscope (heq ▸ hother)
    rw [bindings_bind_of_ne hne]
    exact h.kept other hother
  apart binder env hbinder hcloses := by
    obtain ⟨other, f, hlookup, rfl⟩ := hcloses
    rcases lookup_bind_eq_some hlookup with rfl | hlookup
    · exact hv f rfl
    · exact h.apart binder _ hbinder ⟨other, f, hlookup, rfl⟩

theorem grow (h : s.Hides hidden s₀) : s.grow.Hides hidden s₀ where
  size_le := by
    rw [size_grow]
    exact Nat.le_succ_of_le h.size_le
  kept scope hscope := by
    rw [bindings_grow]
    exact h.kept scope hscope
  apart binder env hbinder hcloses := by
    obtain ⟨name, f, hlookup, rfl⟩ := hcloses
    rw [lookup_grow] at hlookup
    exact h.apart binder _ hbinder ⟨name, f, hlookup, rfl⟩

theorem defineAll (h : s.Hides hidden s₀) {env : Env}
    (henv : ¬ hidden env.scope) {named : List (String × Value)}
    (hnamed : ∀ p ∈ named, p.2.Avoids hidden) :
    (s.defineAll env named).Hides hidden s₀ :=
  defineAll_of_define (Q := (·.Hides hidden s₀)) h
    fun _ p hp h => h.bind henv (hnamed p hp) p.1

/-- A new scope is not hidden, if the hidden ones are of the earlier
store. -/
theorem newChild (h : s.Hides hidden s₀)
    (hthere : ∀ scope, hidden scope → scope < s₀.size) {env : Env}
    (henv : env.Avoids hidden) : (s.newChild env).1.Avoids hidden := by
  have hnew : ¬ hidden s.size := fun hhidden =>
    Nat.not_le_of_lt (hthere _ hhidden) h.size_le
  exact List.forall_mem_cons.2 ⟨hnew, henv⟩

end Store.Hides

/-- Nothing that runs comes to a hidden scope. -/
def hides (hidden : Nat → Prop) (s₀ : Store) : Discipline Unit where
  Later _ _ := True
  OfStore _ s := s.Hides hidden s₀
  OfValue _ := Value.Avoids hidden
  OfExpr _ env _ _ := env.Avoids hidden
  OfStmt _ env _ := env.Avoids hidden
  OfStmts _ env _ := env.Avoids hidden

theorem hides_lawful {hidden : Nat → Prop} {s₀ : Store}
    (hthere : ∀ scope, hidden scope → scope < s₀.size)
    (hglobals : ¬ hidden 0) : (hides hidden s₀).Lawful := by
  -- A use looks where the environment is, or at the globals.
  have hsees : ∀ {env : Env} {scope : Nat}, env.Avoids hidden →
      env.Sees scope → ¬ hidden scope := by
    intro env scope henv hsees
    rcases hsees with hmem | rfl
    · exact henv scope hmem
    · exact hglobals
  exact {
    refl _ := trivial
    trans _ _ := trivial
    value_later _ h := h
    expr_later _ h := h
    stmt_later _ h := h
    stmts_later _ h := h
    plain h f heq := absurd heq (h f)
    found {k s env pending e scope name v} h henv hscope hv f heq :=
      h.apart scope _ (hsees henv hscope) ⟨name, f, heq ▸ hv, rfl⟩
    assigned h henv hscope _ hv :=
      ⟨(), trivial, h.bind (hsees henv hscope) hv _⟩
    part h _ _ := h
    exprs h _ _ := h
    branch h _ _ := h
    head h := h
    tail h := h
    defined h henv hv :=
      ⟨(), trivial, h.bind (henv _ List.mem_cons_self) hv _⟩
    declared h henv := ⟨(), trivial, h.bind (henv _ List.mem_cons_self)
      (fun f heq => by cases heq; exact henv) _⟩
    block h henv := ⟨(), trivial, h.grow, h.newChild hthere henv⟩
    body {k s f args} h hf _ hargs := by
      have hinner := h.newChild hthere (hf f rfl)
      refine ⟨(), trivial, h.grow.defineAll (hinner _ List.mem_cons_self)
        fun p hp => hargs _ (List.of_mem_zip hp).2, hinner⟩ }

section Kept

variable {setting : Setting} (haccess : setting.access.Honest)

include haccess

/-- However the task of a moment ends, a scope out of its reach binds
what it did at the moment. -/
theorem Moment.bindings_kept (t : Moment) {scope : Nat}
    (hscope : scope < t.machine.store.size) (h : ¬ t.Reachable scope) :
    (t.after setting).store.bindings scope
      = t.machine.store.bindings scope := by
  -- What is out of reach is hidden from the task.
  let hidden (scope : Nat) : Prop :=
    scope < t.machine.store.size ∧ ¬ t.Reachable scope
  have hroot : ∀ {env : Env}, t.machine.Root t.task.hand env →
      env.Avoids hidden :=
    fun hroot _ hmem hhidden => hhidden.2 (.root hroot hmem)
  have hstore : t.machine.store.Hides hidden t.machine.store := by
    refine ⟨Nat.le_refl _, fun _ _ => rfl, ?_⟩
    rintro binder env hbinder ⟨name, f, hlookup, rfl⟩ other hmem hhidden
    have hthere := Store.lt_size_of_lookup
      (Option.isSome_iff_exists.2 ⟨_, hlookup⟩)
    have hreachable : t.Reachable binder :=
      Classical.byContradiction fun hnot => hbinder ⟨hthere, hnot⟩
    exact hhidden.2 (.closure hreachable ⟨name, f, hlookup, rfl⟩ hmem)
  have hholds : (hides hidden t.machine.store).Holds () t := by
    refine ⟨hstore, Discipline.ofTask_of_forall (fun _ _ => hroot .current)
      (fun _ => hroot .current) (fun _ => hroot .current) ?_⟩
    rintro v hv f rfl
    exact hroot (.closure hv)
  have hlawful : (hides hidden t.machine.store).Lawful :=
    hides_lawful (fun _ => And.left)
      (hroot .globals 0 List.mem_cons_self)
  obtain ⟨_, -, hafter⟩ := hholds.after hlawful haccess
  exact hafter.kept scope ⟨hscope, h⟩

end Kept

-- ============================================================== outside

/-- Whether the task runs nothing in the environment that is current: a call
does not, nor does a native. -/
def Task.elsewhere : Task → Bool
  | .call _ _ | .perform _ _ => true
  | _ => false

/-- The task of the moment does not run inside of the scope. -/
def Moment.Outside (t : Moment) (scope : Nat) : Prop :=
  t.task.elsewhere = true ∨ scope ∉ t.machine.env.chain

/-- No function is called from the moment on that was declared inside of
the scope. -/
def Moment.CallsOutside (setting : Setting) (t : Moment) (scope : Nat) :
    Prop :=
  ∀ t' f args, Reaches setting t t' → t'.task = .call (.function f) args →
    scope ∉ f.closure.chain

section Outside

variable {setting : Setting} {scope : Nat} {t t' : Moment}

/-- What a moment begins runs where it runs itself, or in a block or a
body. -/
theorem Begins.env_cases {t t' : Moment} (h : Begins setting t t') :
    (t'.machine.env = t.machine.env ∧
        (t.task.elsewhere = true → t'.task.elsewhere = true)) ∨
      (∃ node body, t.task = .execute (.block node body) ∧
        t'.machine = t.machine.inBlock) ∨
      ∃ f args, t.task = .call (.function f) args ∧
        t'.machine = t.machine.inBody f args := by
  have hrestores := restoresInRoom setting
  -- Whatever has been run in between has restored the environment.
  cases h with
  | block => exact .inr (.inl ⟨_, _, rfl, rfl⟩)
  | body => exact .inr (.inr ⟨_, _, rfl, rfl⟩)
  | native | looked | printed | asked => exact .inl ⟨rfl, fun _ => rfl⟩
  | @answered m m' room init hand f args next v hrun =>
    exact .inl ⟨((hrestores room).call _ _).of_ok hrun, fun _ => rfl⟩
  | @store m m' room init node name value v hrun
  | @right m m' room init node op value b v hrun
  | @second m m' room init node op value b v hrun _
  | @args m m' room init node argsId value args f hrun _
  | @moreArgs m m' room init value es v hrun
  | @yes m m' room init node value yes no v hrun _
  | @no m m' room init node value yes no v hrun _
  | @loopBody m m' room rounds init value body v hrun _ =>
    exact .inl ⟨((hrestores room).evaluate value).of_ok hrun, nofun⟩
  | @call m m' m'' room init node argsId callee args f vs hrun _ hargs =>
    have henv := ((hrestores room).evaluate callee).of_ok hrun
    have henv' := (Restores.each (hrestores room).evaluate args).of_ok hargs
    exact .inl ⟨henv'.trans henv, nofun⟩
  | @again m m' m'' room rounds init test body v hrun _ hbody =>
    have henv := ((hrestores room).evaluate test).of_ok hrun
    have henv' := ((hrestores room).execute body).of_ok hbody
    exact .inl ⟨henv'.trans henv, nofun⟩
  | @moreStmts m m' room init s ss hrun =>
    exact .inl ⟨((hrestores room).execute s).of_ok hrun, nofun⟩
  | _ => exact .inl ⟨rfl, nofun⟩

/-- What a moment begins outside of a scope is outside too, but for the
body of a function that was declared inside. -/
theorem Moment.Outside.begins (h : t.Outside scope)
    (hthere : scope < t.machine.store.size)
    (hcall : ∀ f args, t.task = .call (.function f) args →
      scope ∉ f.closure.chain) (hbegins : Begins setting t t') :
    t'.Outside scope := by
  have hnew : scope ≠ t.machine.store.size := Nat.ne_of_lt hthere
  rcases hbegins.env_cases with ⟨henv, htask⟩ | ⟨node, body, htask, hm⟩
    | ⟨f, args, htask, hm⟩
  · rcases h with helsewhere | hchain
    · exact .inl (htask helsewhere)
    · exact .inr (henv ▸ hchain)
  · rcases h with helsewhere | hchain
    · rw [htask] at helsewhere
      cases helsewhere
    · refine .inr ?_
      rw [hm]
      exact List.not_mem_cons_of_ne_of_not_mem hnew hchain
  · refine .inr ?_
    rw [hm]
    exact List.not_mem_cons_of_ne_of_not_mem hnew (hcall f args htask)

/-- As long as nothing declared inside is called, all that runs is
outside. -/
theorem Moment.Outside.reaches (haccess : setting.access.Honest)
    (h : t.Outside scope) (hthere : scope < t.machine.store.size)
    (hcalls : t.CallsOutside setting scope) (hreaches : Reaches setting t t') :
    t'.Outside scope := by
  induction hreaches with
  | refl => exact h
  | @tail t₁ t₂ hreaches hbegins ih =>
    obtain ⟨hwidens, -⟩ := Moment.widens_of_reaches haccess hreaches
    exact ih.begins (Nat.lt_of_lt_of_le hthere hwidens.size)
      (fun f args => hcalls t₁ f args hreaches) hbegins

/-- The access, but for one scope in which it finds nothing. -/
def Access.past (access : Access) (scope : Nat) : Access where
  find store env id name :=
    match access.find store env id name with
    | .ok (found, v) =>
        if found = scope then .error (.undefined name) else .ok (found, v)
    | .error fault => .error fault

theorem Access.past_finds {access : Access} (haccess : access.Honest) :
    (access.past scope).Finds fun _ found => found ≠ scope := by
  intro store env id name found v h
  unfold past at h
  simp only at h
  split at h
  · next found' v' hfind =>
    split at h
    · cases h
    · next hne =>
      cases h
      exact ⟨(haccess hfind).1, hne⟩
  · cases h

/-- Where the scope is not seen, nothing is missed. -/
theorem Access.find_past {access : Access} (haccess : access.Honest)
    {env : Env} (hsees : ¬ env.Sees scope) (store : Store) (id : Nat)
    (name : String) :
    (access.past scope).find store env id name
      = access.find store env id name := by
  unfold past
  simp only
  split
  · next found v hfind =>
    have hne : found ≠ scope := fun heq =>
      hsees (heq ▸ (haccess hfind).2)
    rw [if_neg hne, hfind]
  · next fault hfind => exact hfind.symm

/-- Outside of a scope the run is the same without it. -/
theorem Moment.allAgree_past {access : Access} {rounds : Nat}
    (haccess : access.Honest) (hglobals : scope ≠ 0)
    (hthere : scope < t.machine.store.size) (h : t.Outside scope)
    (hcalls : t.CallsOutside ⟨access, rounds⟩ scope) :
    t.AllAgree access (access.past scope) rounds := by
  intro t' hreaches node name htask
  refine (Access.find_past haccess ?_ ..).symm
  rcases h.reaches haccess hthere hcalls hreaches with helsewhere | hchain
  · rcases htask with htask | ⟨v, htask⟩ <;>
      · rw [htask] at helsewhere
        cases helsewhere
  · exact not_or_intro hchain hglobals

/-- The scope is there, and binds just this. -/
structure Store.Keeps (scope : Nat) (bindings : Bindings) (s : Store) :
    Prop where
  there : scope < s.size
  same : s.bindings scope = bindings

namespace Store.Keeps

variable {bindings : Bindings} {s : Store}

theorem bind (h : s.Keeps scope bindings) {other : Nat} (hne : other ≠ scope)
    (name : String) (v : Value) :
    (s.bind other name v).Keeps scope bindings where
  there := by
    rw [size_bind]
    exact h.there
  same := (bindings_bind_of_ne hne name v).trans h.same

theorem grow (h : s.Keeps scope bindings) : s.grow.Keeps scope bindings where
  there := by
    rw [size_grow]
    exact Nat.lt_succ_of_lt h.there
  same := (bindings_grow s scope).trans h.same

theorem defineAll (h : s.Keeps scope bindings) {env : Env}
    (hne : env.scope ≠ scope) (named : List (String × Value)) :
    (s.defineAll env named).Keeps scope bindings :=
  defineAll_of_define h fun _ p _ h => h.bind hne p.1 p.2

end Store.Keeps

/-- Nothing is found in the scope, and nothing is declared there. -/
def spares (scope : Nat) (bindings : Bindings) : Discipline Unit where
  Later _ _ := True
  OfStore _ s := s.Keeps scope bindings
  OfValue _ _ := True
  OfExpr _ _ _ _ := True
  OfStmt _ env _ := env.scope ≠ scope
  OfStmts _ env _ := env.scope ≠ scope
  Sees _ found := found ≠ scope

theorem spares_lawful (scope : Nat) (bindings : Bindings) :
    (spares scope bindings).Lawful where
  refl _ := trivial
  trans _ _ := trivial
  value_later _ h := h
  expr_later _ h := h
  stmt_later _ h := h
  stmts_later _ h := h
  plain _ := trivial
  found _ _ _ _ := trivial
  assigned h _ hsees _ _ := ⟨(), trivial, h.bind hsees _ _⟩
  part _ _ _ := trivial
  exprs _ _ _ := trivial
  branch h _ _ := h
  head h := h
  tail h := h
  defined h henv _ := ⟨(), trivial, h.bind henv _ _⟩
  declared h henv := ⟨(), trivial, h.bind henv _ _⟩
  block h _ := ⟨(), trivial, h.grow, Nat.ne_of_gt h.there⟩
  body h _ _ _ :=
    have hne := Nat.ne_of_gt h.there
    ⟨(), trivial, h.grow.defineAll hne _, hne⟩

/-- However a task ends that runs outside of a scope, the scope binds
what it did at the moment, unless a function was called that was declared
inside. -/
theorem Moment.bindings_kept_outside (haccess : setting.access.Honest)
    (hglobals : scope ≠ 0) (hthere : scope < t.machine.store.size)
    (h : t.Outside scope) (hcalls : t.CallsOutside setting scope) :
    (t.after setting).store.bindings scope
      = t.machine.store.bindings scope := by
  obtain ⟨access, rounds⟩ := setting
  have hsame := sameRun_of_agrees t
    (t.allAgree_past haccess hglobals hthere h hcalls)
  rw [hsame.after]
  let D := spares scope (t.machine.store.bindings scope)
  have htask : D.OfTask () t.machine.env t.initializing t.task := by
    rcases h with helsewhere | hchain
    · have hwhole : ∃ pending e, D.OfExpr () t.machine.env pending e :=
        ⟨none, .literal ⟨0, .start⟩ .nil, trivial⟩
      cases htask : t.task with
      | call f args => exact ⟨trivial, fun _ _ => trivial, hwhole⟩
      | perform hand deed => exact ⟨fun _ _ => trivial, hwhole⟩
      | _ =>
        rw [htask] at helsewhere
        cases helsewhere
    · have henv : t.machine.env.scope ≠ scope := fun heq =>
        hchain (heq ▸ List.mem_cons_self)
      exact Discipline.ofTask_of_forall (fun _ _ => trivial) (fun _ => henv)
        (fun _ => henv) fun _ _ => trivial
  have hholds : D.Holds () t := ⟨⟨hthere, rfl⟩, htask⟩
  let past : Setting := ⟨access.past scope, rounds⟩
  have hpast : past.access.Finds D.Sees := Access.past_finds haccess
  obtain ⟨_, -, hafter⟩ := hholds.after (spares_lawful _ _) hpast
  exact hafter.same

end Outside

end Lox
