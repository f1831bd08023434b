/-
What a `for` does, said directly and not by the blocks and the `while`
that it is read as (`ForLoop.run`). The first clause is executed in an
environment of its own, inside the current one. Then the loop goes
round: the second clause is evaluated, and if it holds, the body is
executed and then the third clause evaluated, both in an environment
that is made for this round. Without a first or a third clause its
environment is missing too, and a loop without a second clause goes on
for ever.

What is nested how deep is the same in both, so they are the same run
and not only alike where there is room enough (`ForLoop.execute_tree`).

# Rounds

A loop that goes round goes from one round to the next, up to one that
is the last (`ForLoop.rounds_run`), and each executes the body where it
begins (`ForLoop.NextRound.body`, `ForLoop.LastRound.body`).

All rounds begin in one environment, so they share the variable of the
first clause (`ForLoop.NextRound.env`). What a round makes is new: the
store has more scopes at the next round if anything was made in this one
(`ForLoop.NextRound.made`).
-/
import Lox.Proofs.Reading.ForLoop
import Lox.Proofs.Run.Names
import Lox.Proofs.Run.Restored
import Lox.Proofs.Units.Returning

namespace Lox

open Run

-- ======================================================= without a located

section Located

variable {setting : Setting} {room : Nat} {node : Node}

/-- A run in which every fault has its node needs no other. -/
theorem Run.located_eq_self {α : Type} {run : Run α}
    (h : ∀ {fault m m'}, run m ≠ .error (.fault fault none) m') :
    located node run = run := by
  funext m
  unfold located
  split
  · next fault m' hrun => exact absurd hrun h
  · rfl

/-- A literal has no fault, and so does not offer its node to any. -/
theorem evaluate_literal (value : Literal) :
    evaluate setting (room + 1) (.literal node value)
      = pure value.value := by
  unfold evaluate
  exact located_eq_self fun h => by cases h

/-- The fault of an expression has its node already, and the statement around
it is not asked. -/
theorem execute_expr (e : Expr) :
    execute setting (room + 1) (.expr node e)
      = (do
        let _ ← evaluate setting room e
        return .normal) := by
  unfold execute
  refine located_eq_self fun {fault m m'} h => ?_
  rcases bind_eq_error.1 h with h | ⟨_, _, _, h⟩
  · have htraces : Moment.Traces setting ⟨m, room, none, .evaluate e⟩ _ :=
      (tracedInRoom setting room).evaluate h
    exact Moment.Traces.node_ne_none htraces
  · cases h

/-- A block makes an environment and executes its statements in it. Their
faults have nodes, and the block is not asked for its own. -/
theorem execute_block (body : List Stmt) :
    execute setting (room + 1) (.block node body)
      = (do
        let inner ← enter (← current)
        within inner (untilReturn (execute setting room) body)) := by
  rw [execute]
  refine located_eq_self fun {fault m m'} h => ?_
  rcases bind_eq_error.1 h with h | ⟨env, m₁, hcurrent, h⟩
  · cases h
  rcases bind_eq_error.1 h with h | ⟨inner, m₂, henter, h⟩
  · cases h
  obtain ⟨m₃, h, -⟩ := within_eq_error h
  have htraces : Moment.Traces setting
      ⟨{ m₂ with env := inner }, room, none, .executeAll body⟩ _ :=
    (tracedInRoom setting room).executeAll h
  exact Moment.Traces.node_ne_none htraces

/-- A loop goes its rounds, and their faults have the nodes of its parts. -/
theorem execute_loop (test : Expr) (body : Stmt) :
    execute setting (room + 1) (.loop node test body)
      = repeatWhile (return (← evaluate setting room test).truthy)
          (execute setting room body) setting.rounds := by
  rw [execute]
  refine located_eq_self fun {fault m m'} h => ?_
  have htraces : Moment.Traces setting
      ⟨m, room, none, .loop test body setting.rounds⟩ _ :=
    (tracedInRoom setting room).loop h
  exact Moment.Traces.node_ne_none htraces

/-- A block that has run has made a scope. -/
theorem size_lt_of_block (haccess : setting.access.Honest)
    {body : List Stmt} {m m' : Machine} {completion : Completion}
    (h : execute setting room (.block node body) m = .ok completion m') :
    m.store.size < m'.store.size := by
  cases room with
  | zero =>
    unfold execute at h
    cases h
  | succ room =>
    rw [execute_block] at h
    obtain ⟨env, m₁, hcurrent, h⟩ := bind_eq_ok.1 h
    cases hcurrent
    obtain ⟨inner, m₂, henter, h⟩ := bind_eq_ok.1 h
    cases henter
    obtain ⟨m₃, hbody, rfl⟩ := within_eq_ok h
    have hle := (Moment.widens_after haccess
      ⟨m.inBlock, room, none, .executeAll body⟩).size
    have hfinal : finalMachine (untilReturn (execute setting room) body)
        m.inBlock = m₃ := finalMachine_of_ok hbody
    have hsize : m.inBlock.store.size = m.store.size + 1 :=
      Store.size_grow m.store
    unfold Moment.after at hle
    simp only [hfinal, hsize] at hle
    exact hle

end Located

-- ====================================================== what a block begins

/-- The scope of a block is in the store when the block begins. -/
theorem Machine.inBlock_inside (m : Machine) :
    m.inBlock.env.scope < m.inBlock.store.size := by
  show m.store.size < m.store.grow.size
  rw [Store.size_grow]
  exact Nat.lt_succ_self _

/-- It binds nothing yet. -/
theorem Machine.names_inBlock (m : Machine) :
    m.inBlock.store.names m.inBlock.env.scope = [] := by
  show m.store.grow.names m.store.size = []
  rw [Store.names_grow, Store.names_of_size_le (Nat.le_refl _)]

-- ====================================================== what a loop does

/-- One step further in, if there is room for it. -/
def Run.nested {α : Type} (run : Nat → Run α) : Nat → Run α
  | 0 => throw .stackOverflow
  | room + 1 => run room

/-- The last statement of a block. -/
theorem untilReturn_singleton (execute : Stmt → Run Completion) (s : Stmt) :
    untilReturn execute [s] = execute s := by
  funext m
  unfold untilReturn
  rw [bind_apply]
  rcases execute s m with ⟨_ | v, m'⟩ | ⟨stop, m'⟩ <;> rfl

/-- A first clause does not return. -/
theorem Spells.returns_clause {n n' : Nat} {ts : List Token} {first : Stmt}
    (h : Spells n ts (.clause (some first)) n') : first.returns = false := by
  cases h with
  | varClause h => cases h <;> rfl
  | exprClause h =>
    cases h
    rfl

namespace ForLoop

variable (l : ForLoop) (setting : Setting)

/-- Whether the loop goes on. Without a second clause it always does. -/
def holds (room : Nat) : Run Bool :=
  match l.test with
  | none => nested (fun _ => return true) room
  | some test => return (← evaluate setting room test).truthy

/-- One round, once the second clause holds. -/
def round (room : Nat) : Run Completion :=
  match l.step with
  | none => execute setting room l.body
  | some step =>
      nested (fun room => do
        let inner ← enter (← current)
        within inner do
          match ← execute setting room l.body with
          | .returned v => return .returned v
          | .normal =>
            let _ ← nested (evaluate setting · step) room
            return .normal) room

/-- All the rounds. -/
def rounds : Nat → Run Completion :=
  nested fun room =>
    repeatWhile (l.holds setting room) (l.round setting room) setting.rounds

/-- The loop. -/
def run (room : Nat) : Run Completion :=
  match l.first with
  | none => l.rounds setting room
  | some first =>
      nested (fun room => do
        let outer ← enter (← current)
        within outer do
          let _ ← execute setting room first
          l.rounds setting room) room

variable {setting} {room : Nat}

/-- To evaluate the test in the tree is to ask whether the loop goes on. A
clause that is missing is read as a literal, which takes a step of room. -/
theorem evaluate_testTree :
    (do return (← evaluate setting room l.testTree).truthy)
      = l.holds setting room := by
  unfold holds testTree Expr.orTrue
  cases l.test with
  | some test => rfl
  | none =>
    cases room with
    | zero =>
      show (do return (← evaluate setting 0 _).truthy) = throw .stackOverflow
      unfold evaluate
      rfl
    | succ room =>
      rw [Option.getD_none, evaluate_literal]
      rfl

/-- To execute the body in the tree is to go one round. With a third clause
the round is a block of the body and the clause, and ends behind the body if
that returns. -/
theorem execute_bodyTree (pos : Position) (n : Nat) :
    execute setting room (forBodyTree pos l.step l.body n).1
      = l.round setting room := by
  unfold round forBodyTree
  cases l.step with
  | none => rfl
  | some step =>
    -- With a third clause a round is a block, and its parts have less room.
    cases room with
    | zero =>
      show execute setting 0 _ = throw .stackOverflow
      unfold execute
      rfl
    | succ room =>
      rw [execute_block]
      funext m
      refine bind_congr_at rfl fun env m₁ _ => ?_
      refine bind_congr_at rfl fun inner m₂ _ => within_congr_at ?_
      refine bind_congr_at rfl fun completion m₃ _ => ?_
      cases completion with
      | returned v => rfl
      | normal =>
        show untilReturn _ [_] m₃ = _
        rw [untilReturn_singleton]
        cases room with
        | zero =>
          unfold execute
          rfl
        | succ room => rw [execute_expr]; rfl

/-- To execute the `while` in the tree is to go all rounds. -/
theorem execute_whileTree (pos : Position) (node : Node) (n : Nat) :
    execute setting room
        (.loop node l.testTree (forBodyTree pos l.step l.body n).1)
      = l.rounds setting room := by
  unfold rounds
  cases room with
  | zero =>
    show execute setting 0 _ = throw .stackOverflow
    unfold execute
    rfl
  | succ room =>
    rw [execute_loop, evaluate_testTree, execute_bodyTree]
    rfl

/-- To execute the tree of a loop is to do what the loop does. -/
theorem execute_tree : execute setting room l.tree = l.run setting room := by
  unfold tree forTree run
  cases hfirst : l.first with
  | none => exact l.execute_whileTree _ _ _
  | some first =>
    cases room with
    | zero =>
      show execute setting 0 _ = throw .stackOverflow
      unfold execute
      rfl
    | succ room =>
      show execute setting (room + 1) (.block _ [first, .loop _ _ _]) = _
      rw [execute_block]
      funext m
      refine bind_congr_at rfl fun env m₁ _ => ?_
      refine bind_congr_at rfl fun outer m₂ _ => within_congr_at ?_
      refine bind_congr_at rfl fun completion m₃ hrun => ?_
      have hspelled := l.first_spelled
      rw [hfirst] at hspelled
      obtain rfl := execute_normal hspelled.returns_clause hrun
      show untilReturn _ [_] m₃ = _
      rw [untilReturn_singleton]
      exact congrFun (l.execute_whileTree _ _ _) m₃

-- ================================================================= rounds

/-- The machine on which the first clause is executed: with an
environment of its own, if there is such a clause. -/
def outer (m : Machine) : Machine :=
  if l.first.isSome then m.inBlock else m

/-- The machine on which the body is executed: with an environment for
this round, if there is a third clause. -/
def inner (m : Machine) : Machine :=
  if l.step.isSome then m.inBlock else m

variable (setting)

/-- When the loop is executed on the first machine, its rounds begin on
the second. -/
def RoundsBegin (room : Nat) (m m' : Machine) : Prop :=
  match l.first with
  | none => m' = l.outer m
  | some first => execute setting room first (l.outer m) = .ok .normal m'

/-- The body is executed on the second machine in the round that begins
on the first. -/
def BodyBegins (room : Nat) (m m' : Machine) : Prop :=
  ∃ m₁, l.holds setting room m = .ok true m₁ ∧ m' = l.inner m₁

/-- Behind the round that begins on the first machine, another one begins
on the second. -/
def NextRound (room : Nat) (m m' : Machine) : Prop :=
  ∃ m₁, l.holds setting room m = .ok true m₁ ∧
    l.round setting room m₁ = .ok .normal m'

/-- From the first machine on, so many rounds are followed by another one,
and the last of these others begins on the second machine. -/
inductive Rounds (room : Nat) : Nat → Machine → Machine → Prop
  | none {m : Machine} : Rounds room 0 m m
  | more {k : Nat} {m m' m'' : Machine} (h : l.NextRound setting room m m')
      (hmore : Rounds room k m' m'') : Rounds room (k + 1) m m''

/-- The round that begins on the machine is the last, and so the loop ends:
the second clause does not hold, or the round returns, or one of its parts
is interrupted. -/
inductive LastRound (room : Nat) (m : Machine) :
    EStateM.Result Interruption Machine Completion → Prop
  | over {m' : Machine} : l.holds setting room m = .ok false m' →
      LastRound room m (.ok .normal m')
  | left {m₁ m' : Machine} {v : Value} :
      l.holds setting room m = .ok true m₁ →
      l.round setting room m₁ = .ok (.returned v) m' →
      LastRound room m (.ok (.returned v) m')
  | untested {stop : Interruption} {m' : Machine} :
      l.holds setting room m = .error stop m' →
      LastRound room m (.error stop m')
  | broken {stop : Interruption} {m₁ m' : Machine} :
      l.holds setting room m = .ok true m₁ →
      l.round setting room m₁ = .error stop m' →
      LastRound room m (.error stop m')

variable {setting} {l} {m m' : Machine}

/-- Whatever ends the rounds of a loop, it is one round behind another up to
one that is the last; unless there are as many rounds as a loop may have
and none of them was the last. -/
theorem rounds_run (room : Nat) (m : Machine) :
    (∃ k < setting.rounds, ∃ m', l.Rounds setting room k m m' ∧
      l.LastRound setting room m' (l.rounds setting (room + 1) m)) ∨
    ∃ m', l.Rounds setting room setting.rounds m m' ∧
      l.rounds setting (room + 1) m = .error .unfinished m' := by
  show (∃ k < _, ∃ m', _ ∧ l.LastRound setting room m'
    (repeatWhile (l.holds setting room) (l.round setting room) _ m)) ∨
      ∃ m', _ ∧ repeatWhile (l.holds setting room) (l.round setting room) _ m
        = .error .unfinished m'
  generalize setting.rounds = left
  induction left generalizing m with
  | zero => exact .inr ⟨m, .none, rfl⟩
  | succ left ih =>
    -- This round is the last, but for one case.
    have hends {r} (hrun : repeatWhile (l.holds setting room)
        (l.round setting room) (left + 1) m = r)
        (h : l.LastRound setting room m r) :
        ∃ k < left + 1, ∃ m', l.Rounds setting room k m m' ∧
          l.LastRound setting room m' (repeatWhile (l.holds setting room)
            (l.round setting room) (left + 1) m) :=
      ⟨0, Nat.succ_pos _, m, .none, hrun ▸ h⟩
    cases hholds : l.holds setting room m with
    | error stop m₁ =>
      exact .inl (hends (bind_of_error hholds) (.untested hholds))
    | ok again m₁ =>
      cases again with
      | false => exact .inl (hends (bind_of_ok hholds) (.over hholds))
      | true =>
        cases hround : l.round setting room m₁ with
        | error stop m₂ =>
          exact .inl (hends ((bind_of_ok hholds).trans (bind_of_error hround))
            (.broken hholds hround))
        | ok completion m₂ =>
          cases completion with
          | returned v =>
            exact .inl (hends ((bind_of_ok hholds).trans (bind_of_ok hround))
              (.left hholds hround))
          | normal =>
            have hnext : l.NextRound setting room m m₂ := ⟨m₁, hholds, hround⟩
            have hrun : repeatWhile (l.holds setting room)
                (l.round setting room) (left + 1) m
                  = repeatWhile (l.holds setting room) (l.round setting room)
                    left m₂ :=
              (bind_of_ok hholds).trans (bind_of_ok hround)
            rw [hrun]
            rcases ih m₂ with ⟨k, hk, m', hrounds, hlast⟩
              | ⟨m', hrounds, hlast⟩
            · exact .inl ⟨k + 1, Nat.succ_lt_succ hk, m',
                .more hnext hrounds, hlast⟩
            · exact .inr ⟨m', .more hnext hrounds, hlast⟩

/-- What the loop comes to is reached round by round. -/
theorem Rounds.reaches {k : Nat} (h : l.Rounds setting room k m m') :
    Relation.ReflTransGen (l.NextRound setting room) m m' := by
  induction h with
  | none => exact .refl
  | more hnext _ ih => exact .head hnext ih

/-- The first clause is executed where the rounds are. -/
theorem RoundsBegin.env (h : l.RoundsBegin setting room m m') :
    m'.env = (l.outer m).env := by
  unfold RoundsBegin at h
  cases hfirst : l.first with
  | none =>
    rw [hfirst] at h
    rw [h]
  | some first =>
    rw [hfirst] at h
    exact ((restoresInRoom setting room).execute first).of_ok h

/-- To ask whether the loop goes on leaves the environment as it is. -/
theorem holds_env {b : Bool} (h : l.holds setting room m = .ok b m') :
    m'.env = m.env := by
  unfold holds at h
  cases htest : l.test with
  | none =>
    rw [htest] at h
    cases room with
    | zero => cases h
    | succ room =>
      cases h
      rfl
  | some test =>
    rw [htest] at h
    exact (Restores.bind ((restoresInRoom setting room).evaluate test)
      fun _ => .pure _).of_ok h

/-- A round that is not interrupted has ended as its body has, and if that
was normally, it has then at most evaluated an expression in the
environment of the body. -/
theorem round_cases (haccess : setting.access.Honest)
    {completion : Completion}
    (h : l.round setting room m = .ok completion m') :
    m'.env = m.env ∧ ∃ room' m₁,
      execute setting room' l.body (l.inner m) = .ok completion m₁ ∧
        m₁.store.size ≤ m'.store.size := by
  unfold round at h
  unfold inner
  cases hstep : l.step with
  | none =>
    rw [hstep] at h
    exact ⟨((restoresInRoom setting room).execute l.body).of_ok h, room, m',
      h, Nat.le_refl _⟩
  | some step =>
    rw [hstep] at h
    cases room with
    | zero => cases h
    | succ room =>
      obtain ⟨env, m₁, hcurrent, h⟩ := bind_eq_ok.1 h
      cases hcurrent
      obtain ⟨inner, m₂, henter, h⟩ := bind_eq_ok.1 h
      cases henter
      obtain ⟨m₃, hround, rfl⟩ := within_eq_ok h
      obtain ⟨ended, m₄, hbody, h⟩ := bind_eq_ok.1 hround
      cases ended with
      | returned v =>
        cases h
        exact ⟨rfl, room, m₃, hbody, Nat.le_refl _⟩
      | normal =>
        obtain ⟨v, m₅, hvalue, h⟩ := bind_eq_ok.1 h
        cases h
        cases room with
        | zero => cases hvalue
        | succ room =>
          have hvalue' : evaluate setting room step m₄ = .ok v m₃ := hvalue
          have hle : m₄.store.size ≤ m₃.store.size :=
            size_le_of_evaluate haccess hvalue'
          exact ⟨rfl, room + 1, m₄, hbody, hle⟩

/-- A round in which the body and the third clause end is a round that ends,
in the environment that it began in. -/
theorem round_of_ok {step : Expr} {m₁ m₂ : Machine} {v : Value}
    (hstep : l.step = some step)
    (hbody : execute setting (room + 1) l.body m.inBlock = .ok .normal m₁)
    (hvalue : evaluate setting room step m₁ = .ok v m₂) :
    l.round setting (room + 2) m = .ok .normal { m₂ with env := m.env } := by
  unfold round
  rw [hstep]
  refine within_of_ok ((bind_of_ok hbody).trans ?_)
  exact bind_of_ok hvalue

/-- The next round begins in the same environment. -/
theorem NextRound.env (haccess : setting.access.Honest)
    (h : l.NextRound setting room m m') : m'.env = m.env := by
  obtain ⟨m₁, hholds, hround⟩ := h
  exact (round_cases haccess hround).1.trans (holds_env hholds)

/-- In a round with another one behind it, the body is executed to its end
where it begins. -/
theorem NextRound.body (haccess : setting.access.Honest)
    (h : l.NextRound setting room m m') : ∃ b room' m₁,
      l.BodyBegins setting room m b ∧
        execute setting room' l.body b = .ok .normal m₁ ∧
        m₁.store.size ≤ m'.store.size := by
  obtain ⟨m₁, hholds, hround⟩ := h
  obtain ⟨-, room', m₂, hbody, hle⟩ := round_cases haccess hround
  exact ⟨_, room', m₂, ⟨m₁, hholds, rfl⟩, hbody, hle⟩

/-- In a round that returns, the body is executed where it begins, and it is
the body that returns. -/
theorem LastRound.body (haccess : setting.access.Honest) {v : Value}
    (h : l.LastRound setting room m (.ok (.returned v) m')) :
    ∃ b room' m₁, l.BodyBegins setting room m b ∧
      execute setting room' l.body b = .ok (.returned v) m₁ := by
  cases h with
  | left hholds hround =>
    obtain ⟨-, room', m₂, hbody, -⟩ := round_cases haccess hround
    exact ⟨_, room', m₂, ⟨_, hholds, rfl⟩, hbody⟩

/-- The body begins on one machine in each round. -/
theorem BodyBegins.unique {b b' : Machine} (h : l.BodyBegins setting room m b)
    (h' : l.BodyBegins setting room m b') : b = b' := by
  obtain ⟨m₁, hholds, rfl⟩ := h
  obtain ⟨m₂, hholds', rfl⟩ := h'
  cases hholds.symm.trans hholds'
  rfl

/-- From round to round the environment stays the same. -/
theorem env_of_rounds (haccess : setting.access.Honest)
    (h : Relation.ReflTransGen (l.NextRound setting room) m m') :
    m'.env = m.env := by
  induction h with
  | refl => rfl
  | tail _ hnext ih => exact (hnext.env haccess).trans ih

/-- To ask whether the loop goes on takes no scope away. -/
theorem size_le_of_holds (haccess : setting.access.Honest) {b : Bool}
    (h : l.holds setting room m = .ok b m') :
    m.store.size ≤ m'.store.size := by
  unfold holds at h
  cases htest : l.test with
  | none =>
    rw [htest] at h
    cases room with
    | zero => cases h
    | succ room =>
      cases h
      exact Nat.le_refl _
  | some test =>
    rw [htest] at h
    obtain ⟨v, m₁, hv, h⟩ := bind_eq_ok.1 h
    cases h
    exact size_le_of_evaluate haccess hv

/-- Whatever machine the body begins on, all its scopes are there in the
next round, and that of a block in addition. -/
theorem NextRound.made (haccess : setting.access.Honest) {b : Machine}
    (h : l.NextRound setting room m m') (hb : l.BodyBegins setting room m b) :
    b.store.size ≤ m'.store.size ∧
      ∀ node body, l.body = .block node body →
        b.store.size < m'.store.size := by
  obtain ⟨b', room', m₂, hb', hbody, hle⟩ := h.body haccess
  obtain rfl := hb.unique hb'
  refine ⟨Nat.le_trans (size_le_of_execute haccess hbody) hle, ?_⟩
  intro node body hblock
  rw [hblock] at hbody
  exact Nat.lt_of_lt_of_le (size_lt_of_block haccess hbody) hle

/-- Where the body begins, the scopes from before the round are there. -/
theorem BodyBegins.size_le (haccess : setting.access.Honest) {b : Machine}
    (h : l.BodyBegins setting room m b) :
    m.store.size ≤ b.store.size := by
  obtain ⟨m₁, hholds, rfl⟩ := h
  have hle := size_le_of_holds haccess hholds
  unfold inner
  split
  · exact Nat.le_trans hle (by simp [Machine.inBlock, Store.newChild])
  · exact hle

/-- Where the rounds begin, the own scope of the environment is in the
store, if it was where the loop began. -/
theorem RoundsBegin.inside (haccess : setting.access.Honest)
    (h : l.RoundsBegin setting room m m')
    (hinside : m.env.scope < m.store.size) :
    m'.env.scope < m'.store.size := by
  have houter : (l.outer m).env.scope < (l.outer m).store.size := by
    unfold outer
    split
    · exact m.inBlock_inside
    · exact hinside
  rw [h.env]
  unfold RoundsBegin at h
  cases hfirst : l.first with
  | none =>
    rw [hfirst] at h
    rw [h]
    exact houter
  | some first =>
    rw [hfirst] at h
    exact Nat.lt_of_lt_of_le houter (size_le_of_execute haccess h)

/-- Where the body begins, the own scope of the environment is in the
store, if it was where the round began. -/
theorem BodyBegins.inside (haccess : setting.access.Honest)
    (h : l.BodyBegins setting room m m')
    (hinside : m.env.scope < m.store.size) :
    m'.env.scope < m'.store.size := by
  obtain ⟨m₁, hholds, rfl⟩ := h
  unfold inner
  split
  · exact m₁.inBlock_inside
  · rw [holds_env hholds]
    exact Nat.lt_of_lt_of_le hinside (size_le_of_holds haccess hholds)

/-- From round to round no scope is gone. -/
theorem size_le_of_rounds (haccess : setting.access.Honest)
    (h : Relation.ReflTransGen (l.NextRound setting room) m m') :
    m.store.size ≤ m'.store.size := by
  induction h with
  | refl => exact Nat.le_refl _
  | tail _ hnext ih =>
    obtain ⟨b, room', m₂, hb, hbody, hle⟩ := hnext.body haccess
    have hinner := hb.size_le haccess
    have hsize := size_le_of_execute haccess hbody
    omega

/-- What a later round makes is new. -/
theorem BodyBegins.later (haccess : setting.access.Honest)
    {b b' : Machine} (h : l.BodyBegins setting room m b)
    (hrounds : Relation.TransGen (l.NextRound setting room) m m')
    (h' : l.BodyBegins setting room m' b') :
    (l.step.isSome = true → b.env.scope < b'.env.scope) ∧
      ∀ node body, l.body = .block node body →
        b.inBlock.env.scope < b'.inBlock.env.scope := by
  -- What the next round makes is new, and the later ones take nothing away.
  obtain ⟨m₁, hnext, hmore⟩ := Relation.TransGen.head'_iff.1 hrounds
  obtain ⟨hmade, hblock⟩ := hnext.made haccess h
  have hmore := size_le_of_rounds haccess hmore
  have hbegins := h'.size_le haccess
  constructor
  · intro hstep
    obtain ⟨m₂, hholds, rfl⟩ := h
    obtain ⟨m₂', hholds', rfl⟩ := h'
    have hsize := size_le_of_holds haccess hholds'
    unfold inner at hmade ⊢
    rw [if_pos hstep] at hmade
    rw [if_pos hstep, if_pos hstep]
    have hgrown : m₂.inBlock.store.size = m₂.store.size + 1 :=
      Store.size_grow m₂.store
    show m₂.store.size < m₂'.store.size
    omega
  · intro node body hbody
    have hlt := hblock node body hbody
    show b.store.size < b'.store.size
    omega

end ForLoop

-- =============================================================== sessions

/-- At every moment of a session, the own scope of the environment is in
the store. -/
theorem Session.AtMoment.inside {clock : Clock} {natives : List NativeSpec}
    {sources : List String} {source : String} {depths : Depths} {t : Moment}
    (h : ((Session.start clock natives).runAll sources).1.AtMoment source
      depths t) : t.machine.env.scope < t.machine.store.size := by
  obtain ⟨hpaired, -⟩ := (Scoping.paired_start clock natives).runAll sources
  obtain ⟨limit, memory, places, scopes, view, -, hsees, -, -⟩ :=
    hpaired.sound h
  exact hsees.inside

/-- Whenever a loop is executed in a session, it does what it says
directly, and the scope of the environment around it binds the same
names afterwards, however it ends. What it says is to go from round to
round up to the last (`ForLoop.rounds_run`).

In each of its rounds the environment is that of the first clause, so
the loop has one variable for all rounds. Where the body begins, the
environment for the round is new inside that one and binds nothing, and
the body, however it ends, gives no name to any scope that is there, so
the third clause is evaluated where still nothing is bound. A later
round has another environment, and another one for the declarations in a
block that is the body. -/
theorem forLoop_runs (clock : Clock) (natives : List NativeSpec)
    (sources : List String) (source : String) (depths : Depths) (t : Moment)
    (h : ((Session.start clock natives).runAll sources).1.AtMoment source
      depths t) (l : ForLoop) (htask : t.task = .execute l.tree) :
    let setting : Setting := ⟨.byDepth depths, roundBound⟩
    execute setting t.room l.tree t.machine
        = l.run setting t.room t.machine ∧
      t.machine.env.scope < t.machine.store.size ∧
      t.machine.store.NamesKept (t.after setting).store ∧
      ∀ room room' m m', l.RoundsBegin setting room t.machine m →
        Relation.ReflTransGen (l.NextRound setting room') m m' →
          m'.env = (l.outer t.machine).env ∧
          ∀ b, l.BodyBegins setting room' m' b →
            (if l.step.isSome = true then
              b.env.enclosing = m'.env.chain ∧
                b.store.names b.env.scope = []
            else b.env = m'.env) ∧
            b.env.scope < b.store.size ∧
            (∀ room'', b.store.NamesKept
              (finalMachine (execute setting room'' l.body) b).store) ∧
            ∀ m'' b', Relation.TransGen (l.NextRound setting room') m' m'' →
              l.BodyBegins setting room' m'' b' →
                (l.step.isSome = true → b.env.scope < b'.env.scope) ∧
                  ∀ node body, l.body = .block node body →
                    b.inBlock.env.scope < b'.inBlock.env.scope := by
  intro setting
  have haccess : setting.access.Honest := Access.byDepth_honest depths
  have hinside := h.inside
  refine ⟨congrFun l.execute_tree t.machine, hinside, ?_, ?_⟩
  · have hkept := names_kept haccess l.spells.shaped t.room t.machine
    unfold Moment.after
    rw [htask]
    exact hkept
  · intro room room' m m' hbegin hrounds
    have henv := (ForLoop.env_of_rounds haccess hrounds).trans hbegin.env
    refine ⟨henv, fun b hb => ⟨?_, ?_, fun room'' =>
      names_kept haccess l.body_spelled.shaped room'' b,
      fun m'' b' hlater hb' => hb.later haccess hlater hb'⟩⟩
    · obtain ⟨m₁, hholds, rfl⟩ := hb
      have henv₁ := ForLoop.holds_env hholds
      unfold ForLoop.inner
      split
      · exact ⟨by rw [← henv₁]; rfl, m₁.names_inBlock⟩
      · exact henv₁
    · refine hb.inside haccess ?_
      rw [ForLoop.env_of_rounds haccess hrounds]
      exact Nat.lt_of_lt_of_le (hbegin.inside haccess hinside)
        (ForLoop.size_le_of_rounds haccess hrounds)

/-- The loop `for(var i;true;nil){}`. -/
def endless : ForLoop where
  word := ⟨.kwFor, "for", .start⟩
  opening := TokenKind.leftParen.token ⟨1, 4, 3⟩
  firstTokens :=
    [TokenKind.kwVar.token ⟨1, 5, 4⟩, ⟨.identifier, "i", ⟨1, 9, 8⟩⟩,
      TokenKind.semicolon.token ⟨1, 10, 9⟩]
  first := some (.varDecl ⟨1, 1, 5, 4⟩ ⟨"i", 1, 9, 8⟩ none)
  testTokens := [TokenKind.kwTrue.token ⟨1, 11, 10⟩]
  test := some (.literal ⟨2, 1, 11, 10⟩ (.bool true))
  ending := TokenKind.semicolon.token ⟨1, 15, 14⟩
  stepTokens := [TokenKind.kwNil.token ⟨1, 16, 15⟩]
  step := some (.literal ⟨3, 1, 16, 15⟩ .nil)
  closing := TokenKind.rightParen.token ⟨1, 19, 18⟩
  bodyTokens :=
    [TokenKind.leftBrace.token ⟨1, 20, 19⟩,
      TokenKind.rightBrace.token ⟨1, 21, 20⟩]
  isOpen := false
  body := .block ⟨4, 1, 20, 19⟩ []
  start := 1
  firstEnd := 2
  testEnd := 3
  stepEnd := 4
  bodyEnd := 5
  word_kind := rfl
  opening_kind := rfl
  first_spelled := .varClause (.varDecl rfl rfl rfl)
  test_spelled := .present (Spells.loosen (.literal rfl) _ (Nat.zero_le _))
  ending_kind := rfl
  step_spelled := .present (Spells.loosen (.literal rfl) _ (Nat.zero_le _))
  closing_kind := rfl
  body_spelled := .block (.braced rfl .nil rfl)

theorem accepts_endless :
    (Session.start 0 []).Accepts "for(var i;true;nil){}" [endless.tree] []
      9 where
  read := by
    show readProgram "for(var i;true;nil){}" 1 = _
    cbv
  bound := by
    cbv

/-- Two rounds of a loop with a variable, a body that is a block, and a third
clause: each round and each block has its own scope. -/
theorem forLoop_runs_endless :
    ∃ (depths : Depths) (t : Moment) (m m' b b' : Machine),
      (Session.start 0 []).AtMoment "for(var i;true;nil){}" depths t ∧
        t.task = .execute endless.tree ∧
        endless.RoundsBegin ⟨.byDepth depths, roundBound⟩ 2499 t.machine m ∧
        endless.BodyBegins ⟨.byDepth depths, roundBound⟩ 2498 m b ∧
        endless.NextRound ⟨.byDepth depths, roundBound⟩ 2498 m m' ∧
        endless.BodyBegins ⟨.byDepth depths, roundBound⟩ 2498 m' b' ∧
        m'.env = t.machine.inBlock.env ∧
        b.store.names b.env.scope = [] ∧
        b.env.scope < b'.env.scope ∧
        b.inBlock.env.scope < b'.inBlock.env.scope := by
  let setting : Setting := ⟨.byDepth ∅, roundBound⟩
  let start := (Session.start 0 []).machine
  have hmoment : (Session.start 0 []).AtMoment "for(var i;true;nil){}" ∅
      ⟨start, nestingRoom, none, .execute endless.tree⟩ :=
    ⟨_, [], 9, accepts_endless, rfl, .single .firstStmt⟩
  have hbegins : ∃ m, execute setting 2499
      (.varDecl ⟨1, 1, 5, 4⟩ ⟨"i", 1, 9, 8⟩ none) start.inBlock
        = .ok .normal m := by
    unfold execute
    exact ⟨_, rfl⟩
  have hholds (m : Machine) : endless.holds setting 2498 m = .ok true m := by
    show (do return (← evaluate setting 2498 (.literal _ _)).truthy) m = _
    rw [evaluate_literal]
    rfl
  have hround (m : Machine) :
      ∃ m', endless.round setting 2498 m = .ok .normal m' := by
    have hbody : ∃ m', execute setting 2497 endless.body m.inBlock
        = .ok .normal m' := by
      show ∃ m', execute setting 2497 (.block _ []) m.inBlock = _
      rw [execute_block]
      exact ⟨_, rfl⟩
    obtain ⟨m₁, hbody⟩ := hbody
    have hstep : evaluate setting 2496 (.literal ⟨3, 1, 16, 15⟩ .nil) m₁
        = .ok .nil m₁ := by
      rw [evaluate_literal]
      rfl
    exact ⟨_, endless.round_of_ok rfl hbody hstep⟩
  obtain ⟨m, hbegins⟩ := hbegins
  obtain ⟨m', hround⟩ := hround m
  have hnext : endless.NextRound setting 2498 m m' := ⟨m, hholds m, hround⟩
  have hbody : endless.BodyBegins setting 2498 m m.inBlock :=
    ⟨m, hholds m, rfl⟩
  have hbody' : endless.BodyBegins setting 2498 m' m'.inBlock :=
    ⟨m', hholds m', rfl⟩
  obtain ⟨-, -, -, hrounds⟩ := forLoop_runs 0 [] [] "for(var i;true;nil){}" ∅
    _ hmoment endless rfl
  obtain ⟨-, hfirst⟩ := hrounds 2499 2498 m m hbegins .refl
  obtain ⟨henv, -⟩ := hrounds 2499 2498 m m' hbegins (.single hnext)
  obtain ⟨hown, -, -, hlater⟩ := hfirst m.inBlock hbody
  obtain ⟨hstep, hblock⟩ := hlater m' m'.inBlock (.single hnext) hbody'
  exact ⟨∅, _, m, m', m.inBlock, m'.inBlock, hmoment, rfl, hbegins, hbody,
    hnext, hbody', henv, hown.2, hstep rfl, hblock _ _ rfl⟩

end Lox
