/-
Runs that go together. Two runs from a world simulate each other if they
end alike, with a result or with an interruption, and in related moments
again. This is closed under all the ways in which runs are put together,
so the two evaluators need only be compared in their smallest steps.
-/
import Lox.Proofs.Run.Laws
import Lox.Proofs.Scoping.World

namespace Lox.Scoping

open Lexical (Locals View Memory)
open Run

variable {α β γ δ : Type} {table : Table} {limit : Nat}
  {declares : Bool} {w w' : World}

-- ============================================================ simulation

/-- The runs end alike, in related moments, and what they end with is as
the condition says. -/
def Simulates (table : Table) (limit : Nat) (declares : Bool) (w : World)
    (run : Run α) (run' : RunOn Memory β)
    (post : World → α → β → Prop) : Prop :=
  match run w.machine, run' w.memory with
  | .ok a m, .ok b μ => ∃ places,
      Related table limit ⟨m, μ, places⟩ ∧
      Extends declares w ⟨m, μ, places⟩ ∧ post ⟨m, μ, places⟩ a b
  | .error stop m, .error stop' μ =>
      stop' = stop.mapFn Function.unclosed id ∧ ∃ places,
        Related table limit ⟨m, μ, places⟩ ∧
        Extends declares w ⟨m, μ, places⟩
  | _, _ => False

-- =============================================================== results

/-- Values that are the same but for closures, and faithful. -/
def SameValue (table : Table) (limit : Nat) (w : World) (a b : Value) :
    Prop :=
  b = a.unclosed ∧ FaithfulValue table limit w a

/-- Ends of statements that are the same but for closures. -/
def SameCompletion (table : Table) (limit : Nat) (w : World)
    (a b : Completion) : Prop :=
  b = a.mapFn Function.unclosed ∧
    ∀ v, a = .returned v → FaithfulValue table limit w v

theorem SameValue.mono {a b : Value} (h : SameValue table limit w a b)
    (hext : Extends declares w w') : SameValue table limit w' a b :=
  ⟨h.1, h.2.mono hext⟩

/-- Values each for each the same but for closures, and faithful. -/
def SameValues (table : Table) (limit : Nat) (w : World)
    (as bs : List Value) : Prop :=
  bs = as.map Value.unclosed ∧ ∀ a ∈ as, FaithfulValue table limit w a

theorem SameValues.cons {a b : Value} {as bs : List Value}
    (h : SameValue table limit w a b) (hs : SameValues table limit w as bs) :
    SameValues table limit w (a :: as) (b :: bs) :=
  ⟨by rw [h.1, hs.1]; rfl, List.forall_mem_cons.2 ⟨h.2, hs.2⟩⟩

-- ================================================= ways to put together

namespace Simulates

variable {run : Run α} {run' : RunOn Memory β}
  {post : World → α → β → Prop}

/-- Runs that end with a result in the world `w'`. -/
theorem of_ok (w' : World) {a : α} {b : β}
    (h : run w.machine = .ok a w'.machine)
    (h' : run' w.memory = .ok b w'.memory)
    (hw : Related table limit w') (hext : Extends declares w w')
    (hpost : post w' a b) :
    Simulates table limit declares w run run' post := by
  unfold Simulates
  rw [h, h']
  exact ⟨w'.places, hw, hext, hpost⟩

/-- Runs that are interrupted and leave all as it was. -/
theorem of_error (stop : Interruption)
    (h : run w.machine = .error stop w.machine)
    (h' : run' w.memory
      = .error (stop.mapFn Function.unclosed id) w.memory)
    (hw : Related table limit w) :
    Simulates table limit declares w run run' post := by
  unfold Simulates
  rw [h, h']
  exact ⟨rfl, w.places, hw, .refl declares w⟩

/-- Runs may be put otherwise. -/
theorem congr {other : Run α} {other' : RunOn Memory β}
    (heq : run w.machine = other w.machine)
    (heq' : run' w.memory = other' w.memory)
    (h : Simulates table limit declares w run run' post) :
    Simulates table limit declares w other other' post := by
  unfold Simulates at *
  rwa [← heq, ← heq']

theorem pure {a : α} {b : β} (hw : Related table limit w)
    (hpost : post w a b) :
    Simulates table limit declares w (pure a) (pure b) post :=
  .of_ok w rfl rfl hw (.refl declares w) hpost

theorem raise {fault : RuntimeFault} (hw : Related table limit w) :
    Simulates table limit declares w (Run.raise fault)
      (Run.raise (fault.mapFn Function.unclosed)) post :=
  .of_error (.fault fault none) rfl rfl hw

/-- What holds of the results may be said otherwise. -/
theorem imp {post' : World → α → β → Prop}
    (h : Simulates table limit declares w run run' post)
    (hpost : ∀ w' a b, Extends declares w w' → post w' a b →
      post' w' a b) :
    Simulates table limit declares w run run' post' := by
  unfold Simulates at *
  split at h
  · obtain ⟨places, hw, hext, h⟩ := h
    exact ⟨places, hw, hext, hpost _ _ _ hext h⟩
  · exact h
  · exact h

/-- What may not declare may be taken for something that may. -/
theorem weaken {declares' : Bool}
    (h : Simulates table limit declares w run run' post)
    (hle : declares = true → declares' = true) :
    Simulates table limit declares' w run run' post := by
  unfold Simulates at *
  split at h
  · obtain ⟨places, hw, hext, h⟩ := h
    exact ⟨places, hw, hext.weaken hle, h⟩
  · obtain ⟨hstop, places, hw, hext⟩ := h
    exact ⟨hstop, places, hw, hext.weaken hle⟩
  · exact h

/-- One run after another. -/
theorem bind {next : α → Run γ} {next' : β → RunOn Memory δ}
    {post' : World → γ → δ → Prop}
    (h : Simulates table limit declares w run run' post)
    (hnext : ∀ w' a b, Related table limit w' → Extends declares w w' →
      post w' a b →
        Simulates table limit declares w' (next a) (next' b) post') :
    Simulates table limit declares w (run >>= next) (run' >>= next')
      post' := by
  unfold Simulates at h ⊢
  rw [bind_apply, bind_apply]
  split at h
  · next a m b μ hrun hrun' =>
    rw [hrun, hrun']
    obtain ⟨places, hw, hext, hpost⟩ := h
    have hthen := hnext _ a b hw hext hpost
    unfold Simulates at hthen
    simp only [andThen] at hthen ⊢
    split at hthen
    · obtain ⟨places', hw', hext', hpost'⟩ := hthen
      exact ⟨places', hw', hext.trans hext', hpost'⟩
    · obtain ⟨hstop, places', hw', hext'⟩ := hthen
      exact ⟨hstop, places', hw', hext.trans hext'⟩
    · exact hthen.elim
  · next stop m stop' μ hrun hrun' =>
    rw [hrun, hrun']
    exact h
  · exact h.elim

/-- The lexical run may take its result further. -/
theorem returning {f : β → δ} {post' : World → α → δ → Prop}
    (h : Simulates table limit declares w run run' post)
    (hpost : ∀ w' a b, Extends declares w w' → post w' a b →
      post' w' a (f b)) :
    Simulates table limit declares w run (do return f (← run')) post' := by
  unfold Simulates at *
  rw [bind_apply]
  split at h
  · next hrun hrun' =>
    rw [hrun, hrun']
    obtain ⟨places, hw, hext, h⟩ := h
    exact ⟨places, hw, hext, hpost _ _ _ hext h⟩
  · next hrun hrun' =>
    rw [hrun, hrun']
    exact h
  · exact h.elim

/-- A fault gets its node in both runs. -/
theorem located {node : Node} {run : Run α} {run' : RunOn Memory β}
    {post : World → α → β → Prop}
    (h : Simulates table limit declares w run run' post) :
    Simulates table limit declares w (Run.located node run)
      (Run.located node run') post := by
  unfold Simulates at h ⊢
  unfold Run.located
  split at h
  · next a m b μ hrun hrun' =>
    rw [hrun, hrun']
    exact h
  · next stop m stop' μ hrun hrun' =>
    rw [hrun, hrun']
    obtain ⟨rfl, h⟩ := h
    rcases stop with ⟨fault, _ | place⟩ | _ | _ | v <;> exact ⟨rfl, h⟩
  · exact h.elim

/-- The result of an operation, where it is not a function. -/
theorem ofExcept {result : Except RuntimeFault Value}
    (hw : Related table limit w) (hplain : ∀ f, result ≠ .ok (.function f)) :
    Simulates table limit declares w (Run.ofExcept result)
      (Run.ofExcept (mapOutcome Function.unclosed result))
      (SameValue table limit) := by
  cases result with
  | ok v =>
    refine .pure hw ⟨rfl, fun f hf => ?_⟩
    subst hf
    exact absurd rfl (hplain f)
  | error fault => exact .raise hw

/-- The values of several things, one after the other. -/
theorem each {ι : Type} {run : ι → Run Value}
    {run' : ι → RunOn Memory Value} {w : World} {is : List ι}
    (hw : Related table limit w)
    (h : ∀ i ∈ is, ∀ w', Related table limit w' → Extends false w w' →
      Simulates table limit false w' (run i) (run' i)
        (SameValue table limit)) :
    Simulates table limit false w (Run.each run is) (Run.each run' is)
      (SameValues table limit) := by
  induction is generalizing w with
  | nil => exact .pure hw ⟨rfl, nofun⟩
  | cons i is ih =>
    refine (h i (by simp) w hw (.refl _ _)).bind
      fun w₁ a b hw₁ hext₁ hab => ?_
    refine (ih hw₁ fun j hj w' hw' hext' => h j (by simp [hj]) w' hw'
      (hext₁.trans hext')).bind fun w₂ as bs hw₂ hext₂ hall => ?_
    exact .pure hw₂ (.cons (hab.mono hext₂) hall)

/-- A loop: the test and the body simulate from whatever world the
rounds before have led to. -/
theorem repeatWhile {test : Run Bool} {test' : RunOn Memory Bool}
    {body : Run Completion} {body' : RunOn Memory Completion}
    (htest : ∀ w', Related table limit w' → Extends false w w' →
      Simulates table limit false w' test test' fun _ a b => b = a)
    (hbody : ∀ w', Related table limit w' → Extends false w w' →
      Simulates table limit false w' body body'
        (SameCompletion table limit))
    (rounds : Nat) : ∀ w', Related table limit w' → Extends false w w' →
      Simulates table limit false w' (Run.repeatWhile test body rounds)
        (Run.repeatWhile test' body' rounds)
        (SameCompletion table limit) := by
  induction rounds with
  | zero =>
    exact fun w' hw' _ => .of_error .unfinished rfl rfl hw'
  | succ rounds ih =>
    intro w' hw' hext'
    refine (htest w' hw' hext').bind fun w₁ a b hw₁ hext₁ hab => ?_
    subst hab
    cases b with
    | false => exact .pure hw₁ ⟨rfl, nofun⟩
    | true =>
      refine (hbody w₁ hw₁ (hext'.trans hext₁)).bind
        fun w₂ c d hw₂ hext₂ hcd => ?_
      obtain ⟨rfl, hreturned⟩ := hcd
      cases c with
      | normal => exact ih w₂ hw₂ ((hext'.trans hext₁).trans hext₂)
      | returned v => exact .pure hw₂ ⟨rfl, hreturned⟩

/-- What runs in a new environment may declare there, and has declared
nothing outside. -/
theorem enclosed {parent : Env} {run : Env → Run α}
    {run' : RunOn Memory β} {post : World → α → β → Prop}
    (hpost : ∀ {w a b} env, post w a b → post (w.at env) a b)
    (h : Simulates table limit true
      (w.grow.at ⟨w.machine.store.size, parent.chain⟩)
      (run ⟨w.machine.store.size, parent.chain⟩) run' post) :
    Simulates table limit false w
      (Run.enter parent >>= fun env => Run.within env (run env)) run'
      post := by
  have hinside : (Run.enter parent >>= fun env => Run.within env (run env))
      w.machine
      = Run.within ⟨w.machine.store.size, parent.chain⟩
          (run ⟨w.machine.store.size, parent.chain⟩) w.grow.machine := rfl
  -- Whatever was declared is in the new scope or in one made later.
  have hext {m : Machine} {μ : Memory} {places : List Place}
      (h : Extends true (w.grow.at ⟨w.machine.store.size, parent.chain⟩)
        ⟨m, μ, places⟩) :
      Extends false w ⟨{ m with env := w.machine.env }, μ, places⟩ := by
    have hsize : (w.grow.at ⟨w.machine.store.size,
        parent.chain⟩).machine.store.size = w.machine.store.size + 1 := by
      simp [World.grow, World.at]
    have hgrown : w.machine.store.size + 1 ≤ m.store.size := hsize ▸ h.size
    obtain ⟨more, hplaces, hmore⟩ := h.places
    refine ⟨rfl, Nat.le_of_succ_le hgrown, ⟨more, hplaces, fun p hp => ?_⟩,
      h.captured⟩
    rcases hmore p hp with hfresh | ⟨-, hown⟩
    · exact .inl (by omega)
    · exact .inl (Nat.le_of_eq hown.symm)
  unfold Simulates at h ⊢
  rw [hinside]
  split at h
  · next a m b μ hrun hrun' =>
    rw [Run.within_of_ok (m := w.grow.machine) hrun,
      show run' w.memory = .ok b μ from hrun']
    obtain ⟨places, hw, hext', h⟩ := h
    exact ⟨places, hw.at _, hext hext', hpost w.machine.env h⟩
  · next stop m stop' μ hrun hrun' =>
    rw [Run.within_of_error (m := w.grow.machine) hrun,
      show run' w.memory = .error stop' μ from hrun']
    obtain ⟨hstop, places, hw, hext'⟩ := h
    exact ⟨hstop, places, hw.at _, hext hext'⟩
  · exact h.elim

end Simulates

end Lox.Scoping
