/-
The names of a scope. An assignment finds its name bound, so only a
declaration adds one to a scope, and what is declared goes to the own
scope of the current environment. Blocks and calls have scopes of their
own that are not there before. So of the scopes that are there when a
statement begins, only its own can get a name, and that only if the
statement itself is a declaration (`names_kept`).

This is said of one scope at a time (`keepsNames`): whatever runs in the
environment of this scope declares nothing, and whatever else runs is
free to declare what it likes.

No scope and no name of a scope is ever taken away (`Store.Widens`), which
is a discipline too, with the store for its state (`widening`).
-/
import Lox.Proofs.Run.Discipline
import Lox.Proofs.Tree.Render

namespace Lox

-- ================================================================== names

/-- To assign a name that is bound keeps the names and their order. -/
theorem Bindings.names_put {bs : Bindings} {name : String}
    (h : (bs.find? name).isSome = true) (v : Value) :
    (put name v bs).map Prod.fst = bs.map Prod.fst := by
  induction bs with
  | nil => cases h
  | cons b bs ih =>
    obtain ⟨other, old⟩ := b
    by_cases hname : other = name
    · simp [put, hname]
    · simp only [find?, hname, if_false] at h
      simp only [put, hname, if_false, List.map_cons, ih h]

namespace Store

/-- The names that a scope binds, in the order of their first
definitions. -/
def names (s : Store) (scope : Nat) : List String :=
  (s.bindings scope).map Prod.fst

/-- A new scope binds no name, and the old ones what they did. -/
@[simp] theorem names_grow (s : Store) (scope : Nat) :
    s.grow.names scope = s.names scope := by
  rw [names, bindings_grow, names]

/-- A name that is bound is bound anew in its place. -/
theorem names_bind_of_lookup {s : Store} {scope : Nat} {name : String}
    {old : Value} (h : s.lookup scope name = some old) (v : Value)
    (other : Nat) :
    (s.bind scope name v).names other = s.names other := by
  unfold names
  rw [bindings_bind]
  split
  · next hscope =>
    obtain ⟨rfl, -⟩ := hscope
    exact Bindings.names_put (by rw [← lookup, h]; rfl) v
  · rfl

/-- To bind a name in one scope gives no name to another. -/
theorem names_bind_of_ne {s : Store} {scope other : Nat}
    (h : scope ≠ other) (name : String) (v : Value) :
    (s.bind scope name v).names other = s.names other := by
  rw [names, bindings_bind_of_ne h, names]

/-- A scope that is not there binds no name. -/
theorem names_of_size_le {s : Store} {scope : Nat} (h : s.size ≤ scope) :
    s.names scope = [] := by
  have hnone : s.scopes[scope]? = none := Array.getElem?_eq_none h
  simp [names, bindings, hnone]

/-- To declare names in one scope gives none to another. -/
theorem names_defineAll_of_ne {s : Store} {env : Env} {other : Nat}
    (h : env.scope ≠ other) (named : List (String × Value)) :
    (s.defineAll env named).names other = s.names other := by
  rw [names, bindings_defineAll_of_ne h, names]

/-- The scopes of the first store bind the same names in the second. -/
def NamesKept (s s' : Store) : Prop :=
  ∀ scope < s.size, s'.names scope = s.names scope

/-- The second store has the scopes of the first, and what is bound in one
of them is bound there still. -/
structure Widens (s s' : Store) : Prop where
  size : s.size ≤ s'.size
  bound : ∀ scope name, (s.lookup scope name).isSome = true →
    (s'.lookup scope name).isSome = true

namespace Widens

variable {s s' s'' : Store}

/-- A store is as wide as it is. -/
theorem refl (s : Store) : s.Widens s :=
  ⟨Nat.le_refl _, fun _ _ h => h⟩

/-- It gets wider from step to step. -/
theorem trans (h : s.Widens s') (h' : s'.Widens s'') : s.Widens s'' :=
  ⟨Nat.le_trans h.size h'.size,
    fun scope name hbound => h'.bound scope name (h.bound scope name hbound)⟩

/-- To bind a name takes no name and no scope away. -/
theorem bind (s : Store) (scope : Nat) (name : String) (v : Value) :
    s.Widens (s.bind scope name v) where
  size := Nat.le_of_eq (size_bind ..).symm
  bound other otherName hbound := by
    by_cases h : other = scope ∧ otherName = name
    · obtain ⟨rfl, rfl⟩ := h
      rw [lookup_bind_self (lt_size_of_lookup hbound)]
      rfl
    · rw [lookup_bind_of_ne (Decidable.not_and_iff_or_not.1 h)]
      exact hbound

/-- Nor does a new scope. -/
theorem grow (s : Store) : s.Widens s.grow where
  size := by
    rw [size_grow]
    exact Nat.le_succ _
  bound scope name hbound := by rwa [lookup_grow]

/-- Nor do declarations one after another. -/
theorem defineAll (h : s.Widens s') (env : Env)
    (named : List (String × Value)) : s.Widens (s'.defineAll env named) :=
  defineAll_of_define h fun s'' p _ hs => hs.trans (.bind s'' _ p.1 p.2)

end Widens

end Store

-- ============================================================== discipline

/-- Whether a statement may run where nothing is to be declared. -/
def Stmt.Silent (s : Stmt) : Prop := s.declares = false ∧ s.WellFormed

/-- The branches of a statement that declares nothing are no declarations
either. -/
theorem Stmt.Silent.branch {s : Stmt} (h : s.Silent) :
    ∀ s' ∈ s.branches, s'.Silent := by
  obtain ⟨-, hformed⟩ := h
  cases s with
  | cond node test yes no =>
    cases no with
    | none => exact List.forall_mem_singleton.2 hformed.2
    | some other =>
      exact List.forall_mem_cons.2
        ⟨hformed.2.1, List.forall_mem_singleton.2 hformed.2.2⟩
  | loop node test body => exact List.forall_mem_singleton.2 hformed.2
  | _ => nofun

/-- The scope keeps its names, and what runs in its environment declares
nothing. -/
def keepsNames (scope : Nat) (names : List String) : Discipline Unit where
  Later _ _ := True
  OfStore _ s := scope < s.size ∧ s.names scope = names
  OfValue _ _ := True
  OfExpr _ _ _ _ := True
  OfStmt _ env s := env.scope = scope → s.Silent
  OfStmts _ env ss := env.scope = scope → ∀ s ∈ ss, s.Silent

/-- All that runs keeps to it: names are declared where a statement says so,
and in scopes that were made for a block or a body. -/
theorem keepsNames_lawful (scope : Nat) (names : List String) :
    (keepsNames scope names).Lawful where
  refl _ := trivial
  trans _ _ := trivial
  value_later _ h := h
  expr_later _ h := h
  stmt_later _ h := h
  stmts_later _ h := h
  plain _ := trivial
  found _ _ _ _ := trivial
  assigned h _ _ hold _ := ⟨(), trivial, by simpa using h.1,
    (Store.names_bind_of_lookup hold _ _).trans h.2⟩
  part _ _ _ := trivial
  exprs _ _ _ := trivial
  branch h s' hs' henv := (h henv).branch s' hs'
  head h henv := h henv _ List.mem_cons_self
  tail h henv s hs := h henv s (List.mem_cons_of_mem _ hs)
  defined {k s env node name init v} h hs _ := by
    -- A declaration is not silent, so it is made in another scope.
    have hne : env.scope ≠ scope := fun henv => by cases (hs henv).1
    exact ⟨(), trivial, by simpa [Store.define] using h.1,
      (Store.names_bind_of_ne hne _ _).trans h.2⟩
  declared {k s env node name paramsId params bodyNode body stamp} h hs := by
    have hne : env.scope ≠ scope := fun henv => by cases (hs henv).1
    exact ⟨(), trivial, by simpa [Store.define] using h.1,
      (Store.names_bind_of_ne hne _ _).trans h.2⟩
  block h _ := by
    refine ⟨(), trivial, ⟨?_, (Store.names_grow _ _).trans h.2⟩, fun henv => ?_⟩
    · rw [Store.size_grow]
      exact Nat.lt_succ_of_lt h.1
    · exact absurd henv (Nat.ne_of_gt h.1)
  body {k s f args} h _ _ _ := by
    -- The scope of a call is new as well.
    have hne : (s.newChild f.closure).1.scope ≠ scope := Nat.ne_of_gt h.1
    refine ⟨(), trivial, ⟨?_, ?_⟩, fun henv => absurd henv hne⟩
    · rw [Store.size_defineAll, Store.size_grow]
      exact Nat.lt_succ_of_lt h.1
    · rw [Store.names_defineAll_of_ne hne, Store.names_grow]
      exact h.2

/-- Stores that widen. Its state is the store itself. -/
def widening : Discipline Store where
  Later := Store.Widens
  OfStore k s := k = s
  OfValue _ _ := True
  OfExpr _ _ _ _ := True
  OfStmt _ _ _ := True
  OfStmts _ _ _ := True

/-- Whatever runs makes the store wider, declarations included. -/
theorem widening_lawful : widening.Lawful where
  refl := .refl
  trans h h' := h.trans h'
  value_later _ _ := trivial
  expr_later _ _ := trivial
  stmt_later _ _ := trivial
  stmts_later _ _ := trivial
  plain _ := trivial
  found _ _ _ _ := trivial
  assigned h _ _ _ _ := ⟨_, h ▸ .bind .., rfl⟩
  part _ _ _ := trivial
  exprs _ _ _ := trivial
  branch _ _ _ := trivial
  head _ := trivial
  tail _ := trivial
  defined h _ _ := ⟨_, h ▸ .bind .., rfl⟩
  declared h _ := ⟨_, h ▸ .bind .., rfl⟩
  block h _ := ⟨_, h ▸ .grow _, rfl, trivial⟩
  body h _ _ _ := ⟨_, h ▸ (Store.Widens.grow _).defineAll .., rfl, trivial⟩

/-- There is nothing to ask of a moment, so this holds of every run. -/
theorem widening_holds (t : Moment) : widening.Holds t.machine.store t :=
  ⟨rfl, Discipline.ofTask_of_forall (fun _ _ => trivial) (fun _ => trivial)
    (fun _ => trivial) fun _ _ => trivial⟩

-- =========================================================== what is kept

section Kept

variable {setting : Setting} (haccess : setting.access.Honest)

include haccess

open Run

/-- However a statement ends that is no declaration, the scopes that are
there before bind the same names. -/
theorem names_kept {s : Stmt} (hs : s.Silent) (room : Nat) (m : Machine) :
    m.store.NamesKept (finalMachine (execute setting room s) m).store := by
  intro scope hscope
  have hholds : (keepsNames scope (m.store.names scope)).Holds ()
      ⟨m, room, none, .execute s⟩ := ⟨⟨hscope, rfl⟩, fun _ => hs⟩
  obtain ⟨_, -, -, hnames⟩ :=
    hholds.after (keepsNames_lawful _ _) haccess
  exact hnames

/-- However the task of a moment ends, what was bound is bound. -/
theorem Moment.widens_after (t : Moment) :
    t.machine.store.Widens (t.after setting).store := by
  obtain ⟨_, hwidens, rfl, -⟩ :=
    (widening_holds t).course widening_lawful haccess
  exact hwidens

/-- What was bound at a moment is bound at those reached from it, and what
their tasks leave bound is bound when its own task has ended. -/
theorem Moment.widens_of_reaches {t t' : Moment} (h : Reaches setting t t') :
    t.machine.store.Widens t'.machine.store ∧
      (t'.after setting).store.Widens (t.after setting).store := by
  obtain ⟨_, -, rfl, hmoments⟩ :=
    (widening_holds t).course widening_lawful haccess
  obtain ⟨_, _, hwidens, ⟨rfl, -⟩, -, rfl, hwidens'⟩ := hmoments t' h
  exact ⟨hwidens, hwidens'⟩

/-- To evaluate an expression takes no scope away. -/
theorem size_le_of_evaluate {room : Nat} {e : Expr} {m m' : Machine}
    {v : Value} (h : evaluate setting room e m = .ok v m') :
    m.store.size ≤ m'.store.size := by
  rw [← finalMachine_of_ok h]
  exact (Moment.widens_after haccess ⟨m, room, none, .evaluate e⟩).size

/-- Nor does the execution of a statement. -/
theorem size_le_of_execute {room : Nat} {s : Stmt} {m m' : Machine}
    {completion : Completion}
    (h : execute setting room s m = .ok completion m') :
    m.store.size ≤ m'.store.size := by
  rw [← finalMachine_of_ok h]
  exact (Moment.widens_after haccess ⟨m, room, none, .execute s⟩).size

end Kept

end Lox
