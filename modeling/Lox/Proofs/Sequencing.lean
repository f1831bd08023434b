/-
Steps one after another. A reader and a run alike change a state and may
stop on the way, so what a sequence of steps ends with is given by what
its steps end with, and a sequence that ended with a result did so step
by step.
-/

namespace Lox.Sequencing

variable {ε σ α β : Type} {steps : EStateM ε σ α} {f : α → EStateM ε σ β}
  {s s' : σ}

/-- What follows an outcome: the next steps, unless there is no result. -/
def andThen (f : α → EStateM ε σ β) :
    EStateM.Result ε σ α → EStateM.Result ε σ β
  | .ok a s => f a s
  | .error stop s => .error stop s

theorem bind_apply : (steps >>= f) s = andThen f (steps s) := by
  show EStateM.bind steps f s = _
  unfold EStateM.bind
  cases steps s <;> rfl

theorem bind_of_ok {a : α} (h : steps s = .ok a s') :
    (steps >>= f) s = f a s' := by
  rw [bind_apply, h]
  rfl

theorem bind_of_error {stop : ε} (h : steps s = .error stop s') :
    (steps >>= f) s = .error stop s' := by
  rw [bind_apply, h]
  rfl

/-- Steps that ended with a result did so one after another. -/
theorem bind_eq_ok {b : β} :
    (steps >>= f) s = .ok b s'
      ↔ ∃ a s₁, steps s = .ok a s₁ ∧ f a s₁ = .ok b s' := by
  rw [bind_apply]
  cases steps s <;> simp [andThen, and_assoc]

/-- Steps that were stopped were so in the first of them, or in those
behind it. -/
theorem bind_eq_error {stop : ε} :
    (steps >>= f) s = .error stop s'
      ↔ steps s = .error stop s' ∨
        ∃ a s₁, steps s = .ok a s₁ ∧ f a s₁ = .error stop s' := by
  rw [bind_apply]
  cases steps s <;> simp [andThen, and_assoc]

theorem map_eq_ok {g : α → β} {b : β} :
    (g <$> steps) s = .ok b s' ↔ ∃ a, steps s = .ok a s' ∧ g a = b := by
  rw [map_eq_pure_bind, bind_eq_ok]
  constructor
  · rintro ⟨a, s₁, h, ⟨⟩⟩
    exact ⟨a, h, rfl⟩
  · rintro ⟨a, h, rfl⟩
    exact ⟨a, s', h, rfl⟩

@[simp] theorem pure_eq_ok {a b : α} :
    (pure a : EStateM ε σ α) s = .ok b s' ↔ a = b ∧ s = s' := by
  show EStateM.Result.ok a s = _ ↔ _
  simp

end Lox.Sequencing
