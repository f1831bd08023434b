/-
How runs are put together, as equations: a run whose faults get a node
and a run in another environment are given by the outcomes of their
parts, as a run after another is. The functions that a run deals with
come from declarations alone; a literal and an operator have plain
results.
-/
import Lox.Proofs.Sequencing
import Lox.Run.Evaluate

namespace Lox

-- ======================================================== plain results

/-- A sequence has a result only if its first part has. -/
theorem Except.bind_eq_ok {ε α β : Type} {x : Except ε α}
    {f : α → Except ε β} {b : β} (h : x >>= f = .ok b) :
    ∃ a, x = .ok a ∧ f a = .ok b := by
  cases x with
  | error e => cases h
  | ok a => exact ⟨a, rfl, h⟩

/-- No operator makes a function. A function value stems from a declaration or
is handed on. -/
theorem UnaryOp.apply_ne_function (op : UnaryOp) (v : Value)
    (f : Function) : op.apply v ≠ .ok (.function f) := by
  cases op with
  | negate => cases v <;> nofun
  | not => nofun

theorem BinaryOp.apply_ne_function (op : BinaryOp) (a b : Value)
    (f : Function) : op.apply a b ≠ .ok (.function f) := by
  cases op with
  | equal | notEqual => nofun
  | divide =>
    intro h
    obtain ⟨x, -, h⟩ := Except.bind_eq_ok h
    obtain ⟨y, -, h⟩ := Except.bind_eq_ok h
    split at h <;> cases h
  | _ => cases a <;> cases b <;> nofun

theorem Literal.value_ne_function (value : Literal) (f : Function) :
    value.value ≠ .function f := by
  cases value <;> nofun

-- ======================================================= what is handed on

theorem Plain.value_ne_function (p : Plain) (f : Function) :
    p.value ≠ .function f := by
  cases p <;> nofun

/-- What a native hands on is a value of its own or one that it has in
hand. -/
theorem Handed.value_own_or_mem (v : Handed) (hand : List Value) :
    (∃ p : Plain, v.value hand = p.value) ∨ v.value hand ∈ hand := by
  cases v with
  | own p => exact .inl ⟨p, rfl⟩
  | held place =>
    rw [value, List.getD_eq_getElem?_getD]
    cases hplace : hand[place]? with
    | none => exact .inl ⟨.nil, rfl⟩
    | some v => exact .inr (List.mem_of_getElem? hplace)

/-- What holds of the values in hand, and of all that cannot be called,
holds of what a native hands on. -/
theorem Handed.value_of_forall {P : Value → Prop} {hand : List Value}
    (hplain : ∀ p : Plain, P p.value) (hhand : ∀ v ∈ hand, P v)
    (v : Handed) : P (v.value hand) := by
  rcases v.value_own_or_mem hand with ⟨p, hv⟩ | hmem
  · rw [hv]
    exact hplain p
  · exact hhand _ hmem

/-- It holds of what a native hands on as arguments as well. -/
theorem Handed.values_of_forall {P : Value → Prop} {hand : List Value}
    (hplain : ∀ p : Plain, P p.value) (hhand : ∀ v ∈ hand, P v)
    (vs : List Handed) : ∀ v ∈ vs.map (·.value hand), P v :=
  List.forall_mem_map.2 fun v _ => v.value_of_forall hplain hhand

namespace Run

-- ====================================================== put together

variable {σ α β : Type}

export Sequencing (andThen bind_apply bind_of_ok bind_of_error bind_eq_ok
  bind_eq_error)

/-- Where a run has a result, the machine it leaves is the one beside it. -/
theorem finalMachine_of_ok {run : Run α} {m m' : Machine} {a : α}
    (h : run m = .ok a m') : finalMachine run m = m' := by
  unfold finalMachine
  rw [h]

theorem finalMachine_congr {run run' : Run α} {m : Machine}
    (h : run m = run' m) : finalMachine run m = finalMachine run' m := by
  unfold finalMachine
  rw [h]

/-- A run in another environment leaves what it leaves there, with the
environment put back. -/
theorem finalMachine_within (env : Env) (run : Run α) (m : Machine) :
    finalMachine (within env run) m
      = { finalMachine run { m with env } with env := m.env } := by
  unfold finalMachine within
  rcases run { m with env } with ⟨_, _⟩ | ⟨_, _⟩ <;> rfl

theorem finalMachine_bind_pure (run : Run α) (f : α → β) (m : Machine) :
    finalMachine (run >>= fun a => pure (f a)) m = finalMachine run m := by
  unfold finalMachine
  rw [bind_apply]
  rcases run m with ⟨_, _⟩ | ⟨_, _⟩ <;> rfl

/-- A run without a fault needs no node. -/
theorem located_eq_ok {node : Node} {run : RunOn σ α} {s s' : σ} {a : α} :
    located node run s = .ok a s' ↔ run s = .ok a s' := by
  unfold located
  cases run s with
  | ok b s₁ => exact Iff.rfl
  | error stop s₁ =>
    refine iff_of_false ?_ nofun
    rcases stop with ⟨_, _ | _⟩ | _ | _ | _ <;> nofun

/-- However a run in another environment ends, the current environment is
then the one before. -/
theorem within_of_ok {env : Env} {run : Run α} {m m' : Machine} {a : α}
    (h : run { m with env } = .ok a m') :
    within env run m = .ok a { m' with env := m.env } := by
  unfold within
  rw [h]

/-- The environment is put back after a failure too. -/
theorem within_of_error {env : Env} {run : Run α} {m m' : Machine}
    {stop : Interruption} (h : run { m with env } = .error stop m') :
    within env run m = .error stop { m' with env := m.env } := by
  unfold within
  rw [h]

/-- Conversely, a result of a run in another environment is a result of the
run itself. -/
theorem within_eq_ok {env : Env} {run : Run α} {m m' : Machine} {a : α}
    (h : within env run m = .ok a m') :
    ∃ m₁, run { m with env } = .ok a m₁ ∧ m' = { m₁ with env := m.env } := by
  unfold within at h
  split at h
  · next b m₁ hrun =>
    cases h
    exact ⟨m₁, hrun, rfl⟩
  · cases h

/-- So is a failure. -/
theorem within_eq_error {env : Env} {run : Run α} {m m' : Machine}
    {stop : Interruption} (h : within env run m = .error stop m') :
    ∃ m₁, run { m with env } = .error stop m₁ ∧
      m' = { m₁ with env := m.env } := by
  unfold within at h
  split at h
  · cases h
  · next stop' m₁ hrun =>
    cases h
    exact ⟨m₁, hrun, rfl⟩

-- ================================================================== calls

/-- The right number of arguments passes. -/
theorem checkArity_of_eq {expected : Nat} {args : List Value} {m : Machine}
    (h : args.length = expected) : checkArity expected args m = .ok () m := by
  unfold checkArity
  rw [if_pos h]
  rfl

/-- Any other number is a failure, which leaves the machine as it is. -/
theorem checkArity_of_ne {expected : Nat} {args : List Value} {m : Machine}
    (h : args.length ≠ expected) :
    checkArity expected args m
      = .error (.fault (.wrongArity expected args.length) none) m := by
  unfold checkArity
  rw [if_neg h]
  rfl

-- =================================================================== uses

/-- A use of a name is given by what is found. -/
theorem readName_apply (access : Access) (id : Nat) (name : String)
    (m : Machine) :
    readName access id name m
      = match access.find m.store m.env id name with
        | .ok (_, v) => .ok v m
        | .error fault => .error (.fault fault none) m := by
  show (ofExcept (access.find m.store m.env id name) >>= _) m = _
  cases access.find m.store m.env id name <;> rfl

/-- A new value is bound where the name is found. -/
theorem writeName_apply (access : Access) (id : Nat) (name : String)
    (v : Value) (m : Machine) :
    writeName access id name v m
      = match access.find m.store m.env id name with
        | .ok (scope, _) =>
            .ok () { m with store := m.store.bind scope name v }
        | .error fault => .error (.fault fault none) m := by
  show (ofExcept (access.find m.store m.env id name) >>= _) m = _
  cases access.find m.store m.env id name <;> rfl

end Run

end Lox
