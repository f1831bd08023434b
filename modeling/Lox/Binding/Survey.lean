/-
A survey of a tree: it goes through the parts in order, notes what it
finds and may stop at an error. What was noted before the error stays.
Surveys compose: the notes of two surveys one after the other are the
notes of the first and then those of the second, and a survey that
stopped is not gone on with.
-/

namespace Lox

/-- The notes of a survey in order, and what it ended with. -/
structure Survey (ν ε α : Type) where
  notes : List ν
  result : Except ε α

namespace Survey

variable {ν ε α β γ : Type}

/-- A survey of nothing. -/
def done (a : α) : Survey ν ε α := ⟨[], .ok a⟩

/-- One survey after another. -/
def andThen (s : Survey ν ε α) (f : α → Survey ν ε β) : Survey ν ε β :=
  match s.result with
  | .error e => ⟨s.notes, .error e⟩
  | .ok a => ⟨s.notes ++ (f a).notes, (f a).result⟩

instance : Monad (Survey ν ε) where
  pure := done
  bind := andThen

/-- Notes one thing. -/
def note (n : ν) : Survey ν ε Unit := ⟨[n], .ok ()⟩

/-- Stops at an error. -/
def stop (e : ε) : Survey ν ε α := ⟨[], .error e⟩

/-- The error of a survey that stopped. -/
def error? (s : Survey ν ε α) : Option ε :=
  match s.result with
  | .error e => some e
  | .ok _ => none

-- ==================================================================== laws

theorem done_andThen (a : α) (f : α → Survey ν ε β) :
    (done a).andThen f = f a := by
  simp [done, andThen]

theorem andThen_done (s : Survey ν ε α) : s.andThen done = s := by
  rcases s with ⟨notes, _ | _⟩ <;> simp [done, andThen]

theorem andThen_assoc (s : Survey ν ε α) (f : α → Survey ν ε β)
    (g : β → Survey ν ε γ) :
    (s.andThen f).andThen g = s.andThen fun a => (f a).andThen g := by
  rcases s with ⟨notes, e | a⟩
  · simp [andThen]
  · simp only [andThen]
    rcases (f a).result with e | b <;> simp

instance : LawfulMonad (Survey ν ε) :=
  LawfulMonad.mk' _ andThen_done done_andThen andThen_assoc

end Survey

end Lox
