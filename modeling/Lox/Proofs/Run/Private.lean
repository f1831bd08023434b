/-
Captured state is private. What a function captured is the scopes of its
closure, and each call of the function around it makes new ones. Two
functions made by two calls of one function share what stands around
that function and nothing else (`Ledger.Has.notMem_of_apart`): if they
shared a scope further in, they would share what stands around it, and
there the scopes of the two calls are different ones.
-/
import Mathlib
import Lox.Proofs.Run.Untouched

namespace Lox

open Run

-- ============================================================ two closures

/-- Of two lists that a list ends with, the one with an element that the
other only has in front is the longer one. -/
theorem suffix_of_notMem {α : Type} {x a : α} {xs enclosing whole : List α}
    (hxs : xs <:+ whole) (h : a :: enclosing <:+ whole) (hmem : x ∈ xs)
    (hnot : x ∉ enclosing) : a :: enclosing <:+ xs := by
  rcases List.suffix_or_suffix_of_suffix hxs h with hshort | hlong
  · rcases List.suffix_cons_iff.1 hshort with rfl | hsuffix
    · exact List.suffix_rfl
    · exact absurd (hsuffix.subset hmem) hnot
  · exact hlong

/-- Two environments that go through different scopes into one
environment have nothing in common before it. -/
theorem Ledger.Has.notMem_of_apart {k : Ledger} {env env' : Env}
    (h : k.Has env) (h' : k.Has env') {a b : Nat} {enclosing : List Nat}
    (ha : a :: enclosing <:+ env.chain) (hb : b :: enclosing <:+ env'.chain)
    (hne : a ≠ b) {scope : Nat} (hmem : scope ∈ env.chain)
    (hnot : scope ∉ enclosing) : scope ∉ env'.chain := by
  intro hmem'
  obtain ⟨outer, rfl, haround⟩ := Env.exists_around hmem
  obtain ⟨outer', hscope, haround'⟩ := Env.exists_around hmem'
  obtain rfl := (h.outwards haround).unique (h'.outwards haround') hscope
  have ha' : a :: enclosing <:+ outer'.chain :=
    suffix_of_notMem haround ha List.mem_cons_self hnot
  have hb' : b :: enclosing <:+ outer'.chain :=
    suffix_of_notMem haround' hb List.mem_cons_self hnot
  have hab : a :: enclosing <:+ b :: enclosing :=
    List.suffix_of_suffix_length_le ha' hb' (Nat.le_refl _)
  exact hne (List.cons.inj (hab.eq_of_length rfl)).1

/-- The function was declared in the environment, or further in. -/
def Function.MadeIn (f : Function) (env : Env) : Prop :=
  env.chain <:+ f.closure.chain

-- ================================================================== moments

/-- The task of the moment runs in an environment of its own: it is a
block, or a call of a function that a program declared. -/
def Task.Opens (task : Task) : Prop :=
  (∃ node body, task = .execute (.block node body)) ∨
    ∃ f args, task = .call (.function f) args

/-- What a block or a call begins runs in an environment with a new
scope. -/
theorem Begins.scope_of_opens {setting : Setting} {t t' : Moment}
    (h : Begins setting t t') (hopens : t.task.Opens) :
    t'.machine.env.scope = t.machine.store.size := by
  obtain ⟨m, room, init, task⟩ := t
  rcases hopens with ⟨node, body, htask⟩ | ⟨f, args, htask⟩
  · obtain rfl : task = .execute (.block node body) := htask
    cases h
    rfl
  · obtain rfl : task = .call (.function f) args := htask
    cases h
    rfl

/-- What a block or a call does is what is done there, and then the
environment is left. -/
theorem Begins.after_of_opens {setting : Setting} {t t' : Moment}
    (h : Begins setting t t') (hopens : t.task.Opens) :
    t.after setting = { t'.after setting with env := t.machine.env } := by
  obtain ⟨m, room, init, task⟩ := t
  rcases hopens with ⟨node, body, htask⟩ | ⟨f, args, htask⟩
  · obtain rfl : task = .execute (.block node body) := htask
    cases h with
    | @block m room =>
      show finalMachine (execute setting (room + 1) (.block node body)) m = _
      unfold execute
      rw [finalMachine_located]
      exact finalMachine_within ..
  · obtain rfl : task = .call (.function f) args := htask
    cases h with
    | @body m room init f args harity =>
      show finalMachine (Lox.call setting (room + 1) (.function f) args) m = _
      unfold Lox.call
      have hcheck := checkArity_of_eq (m := m) harity
      refine (finalMachine_congr (bind_of_ok hcheck)).trans ?_
      exact (finalMachine_bind_pure ..).trans (finalMachine_within ..)

/-- At every moment of every program, whatever became known of its uses,
and however the task of the moment ends:

- a scope that is there and that the task cannot reach binds afterwards
  what it bound before;
- an environment that is known at the moment, and one that is known
  when the task has ended or at any moment on the way, are the same if
  their scopes are;
- if the task is a block or a call of a function that a program declared,
  it does what it begins does, and that runs in an environment whose
  scope is not there at the moment, and in no environment that is known
  then;
- two functions that were made in two calls of one function have no
  scope in common that is not around that function too, and a call of
  the second leaves what is the first's own as it is, unless a function
  that was declared inside of it is called on the way. -/
theorem captured_state_private {m : Machine} (hm : m.AtRest)
    (depths : Depths) (program : List Stmt) (t : Moment)
    (ht : Reaches ⟨.byDepth depths, roundBound⟩
      ⟨m, nestingRoom, none, .executeAll program⟩ t) :
    let setting : Setting := ⟨.byDepth depths, roundBound⟩
    (∀ scope < t.machine.store.size, ¬ t.Reachable scope →
      (t.after setting).store.bindings scope
        = t.machine.store.bindings scope) ∧
    (∀ env env', t.Knows env →
      ((∃ t', Reaches setting t t' ∧ t'.Knows env') ∨
        (t.after setting).Knows [] env') →
      env'.scope = env.scope → env' = env) ∧
    (t.task.Opens → ∀ t', Begins setting t t' →
      t.after setting = { t'.after setting with env := t.machine.env } ∧
        t.machine.store.size ≤ t'.machine.env.scope ∧
        ∀ env, t.Knows env → t'.machine.env.scope ∉ env.chain) ∧
    ∀ (maker f g : Function) (m₁ m₂ : Machine) (args₁ args₂ : List Value),
      f.MadeIn (m₁.inBody maker args₁).env →
      g.MadeIn (m₂.inBody maker args₂).env →
      (m₁.inBody maker args₁).env ≠ (m₂.inBody maker args₂).env →
      t.Knows f.closure → t.Knows g.closure →
      ∀ scope ∈ f.closure.chain, scope ∉ maker.closure.chain →
        scope ∉ g.closure.chain ∧
        ∀ args, t.task = .call (.function g) args →
          t.CallsOutside setting scope →
          (t.after setting).store.bindings scope
            = t.machine.store.bindings scope := by
  intro setting
  have haccess : setting.access.Honest := Access.byDepth_honest depths
  obtain ⟨k, hholds⟩ := hm.holds_links ht
  refine ⟨fun scope => t.bindings_kept haccess, ?_, ?_, ?_⟩
  · intro env env' hknows hknows' hscope
    exact links_same haccess hholds hknows hknows' hscope
  · intro hopens t' hbegins
    rw [hbegins.scope_of_opens hopens]
    refine ⟨hbegins.after_of_opens hopens, Nat.le_refl _,
      fun env hknows hmem => ?_⟩
    exact Nat.lt_irrefl _ (links_fresh hholds hknows _ hmem)
  · intro maker f g m₁ m₂ args₁ args₂ hf hg hne hknows hknows' scope hmem hnot
    have hhas := links_known hholds hknows
    have hhas' := links_known hholds hknows'
    have hscopes : m₁.store.size ≠ m₂.store.size := fun heq =>
      hne (congrArg (Env.mk · maker.closure.chain) heq)
    refine ⟨hhas.notMem_of_apart hhas' hf hg hscopes hmem hnot,
      fun args htask hcalls => ?_⟩
    -- What is around the maker has the globals in it, so this is not them.
    have hzero : scope ≠ 0 := by
      rintro rfl
      have hmaker : k.Has maker.closure :=
        hhas.outwards ((List.suffix_cons _ _).trans hf)
      exact hnot hmaker.zero_mem_chain
    exact t.bindings_kept_outside haccess hzero
      (links_fresh hholds hknows scope hmem) (.inl (htask ▸ rfl)) hcalls

/-- The function `clear` in `fun make(i){fun clear(){i=nil;}return clear;}`,
as a call of `make` leaves it. -/
def clearing (stamp scope : Nat) : Function :=
  ⟨stamp, "clear", [], [.expr ⟨4, 1, 25, 24⟩ (.assign ⟨3, 1, 25, 24⟩ "i"
    (.literal ⟨2, 1, 27, 26⟩ .nil))], ⟨scope, [0]⟩⟩

/-- The function `make` itself. -/
def making : Function :=
  ⟨1, "make", ["i"], [.funDecl ⟨7, 1, 13, 12⟩ ⟨"clear", 1, 17, 16⟩ 6 []
      ⟨5, 1, 24, 23⟩ (clearing 0 0).body,
    .ret ⟨9, 1, 32, 31⟩ (some (.var ⟨8, 1, 39, 38⟩ "clear"))], .globals⟩

/-- A call of `clear` calls nothing further. -/
theorem clearing_callsOutside {setting : Setting} {t : Moment}
    {stamp scope other : Nat}
    (htask : t.task = .call (.function (clearing stamp scope)) [])
    (hother : other ∉ (clearing stamp scope).closure.chain) :
    t.CallsOutside setting other := by
  have htasks : ∀ t', Reaches setting t t' → t'.task = t.task ∨
      t'.task = .executeAll (clearing stamp scope).body ∨
      t'.task = .executeAll [] ∨
      (∃ s ∈ (clearing stamp scope).body, t'.task = .execute s) ∨
      (∃ node name value,
        t'.task = .evaluate (.assign node name (.literal value .nil))) ∨
      (∃ node value, t'.task = .evaluate (.literal node value)) ∨
      ∃ node name v, t'.task = .store node name v := by
    intro t' hreaches
    induction hreaches with
    | refl => exact .inl rfl
    | @tail t₁ t₂ _ hbegins ih =>
      obtain ⟨m, room, init, task⟩ := t₁
      rw [htask] at ih
      simp only [clearing, List.mem_singleton] at ih
      rcases ih with rfl | rfl | rfl | ⟨_, rfl, rfl⟩ | ⟨_, _, _, rfl⟩ |
        ⟨_, _, rfl⟩ | ⟨_, _, _, rfl⟩ <;> cases hbegins <;> simp [clearing]
  intro t' f args hreaches hcall
  rcases htasks t' hreaches with h | h | h | ⟨_, _, h⟩ | ⟨_, _, _, h⟩ |
    ⟨_, _, h⟩ | ⟨_, _, _, h⟩ <;> rw [hcall] at h
  · rw [htask] at h
    cases h
    exact hother
  all_goals cases h

/-- What is left when `make` has been declared and called twice. -/
def twiceMade : Session :=
  ((Session.start 0 []).runAll
    ["fun make(i)\x7bfun clear()\x7bi=nil;\x7dreturn clear;\x7d",
      "var a=make(true);", "var b=make(true);"]).1

theorem twiceMade_binds :
    twiceMade.machine.store.lookup 0 "make" = some (.function making) ∧
      twiceMade.machine.store.lookup 0 "a"
        = some (.function (clearing 2 1)) ∧
      twiceMade.machine.store.lookup 0 "b"
        = some (.function (clearing 3 2)) ∧
      twiceMade.machine.store.names 1 = ["i", "clear"] ∧
      twiceMade.depths[23]? = none := by
  cbv

theorem captured_state_private_twoCalls :
    let setting : Setting := ⟨.byDepth twiceMade.depths, roundBound⟩
    ∃ t : Moment, t.machine = twiceMade.machine ∧
      t.task = .call (.function (clearing 3 2)) [] ∧
      twiceMade.machine.store.lookup 0 "make" = some (.function making) ∧
      twiceMade.machine.store.lookup 0 "a" = some (.function (clearing 2 1)) ∧
      twiceMade.machine.store.lookup 0 "b" = some (.function (clearing 3 2)) ∧
      twiceMade.machine.store.names 1 = ["i", "clear"] ∧
      1 ∉ (clearing 3 2).closure.chain ∧
      (t.after setting).store.bindings 1
        = twiceMade.machine.store.bindings 1 := by
  intro setting
  obtain ⟨hmake, ha, hb, hnames, hentry⟩ := twiceMade_binds
  have hm : twiceMade.machine.AtRest :=
    Session.runAll_atRest _ (.initial 0 [])
  have hcallee : evaluate setting 2498 (.var ⟨23, 1, 1, 0⟩ "b")
      twiceMade.machine = .ok (.function (clearing 3 2)) twiceMade.machine := by
    unfold evaluate
    refine located_eq_ok.2 ((readName_apply ..).trans ?_)
    rw [Access.find_byDepth_of_none hentry, Store.findIn_of_some hb]
  let program : List Stmt :=
    [.expr ⟨26, 1, 1, 0⟩ (.call ⟨25, 1, 2, 1⟩ 24 (.var ⟨23, 1, 1, 0⟩ "b") [])]
  let t : Moment :=
    ⟨twiceMade.machine, 2498, none, .call (.function (clearing 3 2)) []⟩
  have ht : Reaches setting
      ⟨twiceMade.machine, nestingRoom, none, .executeAll program⟩ t :=
    .head .firstStmt (.head .expr (.single (.call hcallee rfl rfl)))
  obtain ⟨-, -, -, happart⟩ :=
    captured_state_private hm twiceMade.depths program t ht
  let m₁ : Machine := (Session.start 0 []).machine
  let m₂ : Machine := m₁.inBody making [.bool true]
  obtain ⟨hnot, hkept⟩ := happart making (clearing 2 1) (clearing 3 2) m₁ m₂
    [.bool true] [.bool true] List.suffix_rfl List.suffix_rfl (by decide)
    ⟨_, .inr ⟨0, "a", _, ha, rfl⟩, List.suffix_rfl⟩
    ⟨_, .inl (.closure List.mem_cons_self), List.suffix_rfl⟩
    1 List.mem_cons_self (by decide)
  exact ⟨t, rfl, rfl, hmake, ha, hb, hnames, hnot,
    hkept [] rfl (clearing_callsOutside rfl hnot)⟩

end Lox
