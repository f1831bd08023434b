/-
The order of time. What a task begins, it begins one after another, each
with what one before it has left (`Begins.in_turn`). So the states of a run,
which are the machines at its moments and those when their tasks have ended,
come in one order (`Moment.Precedes`): of any two of them, one precedes the
other (`Moment.precedes_or`). What is bound at one is bound at those that it
precedes.
-/
import Lox.Proofs.Run.Names

namespace Lox

open Run

-- =================================================================== turns

/-- The task begins the second moment behind the first, which it begins too:
with what the first has left, or with what others in between have left. -/
inductive Moment.Turn (setting : Setting) (t : Moment) :
    Moment → Moment → Prop where
  | next {t₁ t₂ : Moment} : Begins setting t t₁ → Begins setting t t₂ →
      t₁.after setting = t₂.machine → Turn setting t t₁ t₂
  | trans {t₁ t₂ t₃ : Moment} : Turn setting t t₁ t₂ →
      Begins setting t t₂ → Turn setting t t₂ t₃ → Turn setting t t₁ t₃

variable {setting : Setting} {t t' t₁ t₂ : Moment} {m m' m₁ m₂ : Machine}

/-- The two are one, or the task begins one of them behind the other. -/
def Moment.InTurn (setting : Setting) (t t₁ t₂ : Moment) : Prop :=
  t₁ = t₂ ∨ t.Turn setting t₁ t₂ ∨ t.Turn setting t₂ t₁

theorem Moment.InTurn.before (h : t.Turn setting t₁ t₂) :
    t.InTurn setting t₁ t₂ := .inr (.inl h)

theorem Moment.InTurn.after (h : t.Turn setting t₂ t₁) :
    t.InTurn setting t₁ t₂ := .inr (.inr h)

/-- Behind a run with a result, the next moment begins with what the run has
left. -/
theorem Moment.Turn.of_ok {α : Type} {run : Run α} {a : α}
    (hrun : run m = .ok a m') (h₁ : Begins setting t t₁)
    (h₂ : Begins setting t t₂) (hafter : t₁.after setting = finalMachine run m)
    (hmachine : t₂.machine = m') : t.Turn setting t₁ t₂ :=
  .next h₁ h₂ (hafter.trans ((finalMachine_of_ok hrun).trans hmachine.symm))

/-- A run has one result. -/
theorem eq_of_ok {α : Type} {run : Run α} {a b : α} (h : run m = .ok a m₁)
    (h' : run m = .ok b m₂) : a = b ∧ m₁ = m₂ := by
  cases h.symm.trans h'
  exact ⟨rfl, rfl⟩

/-- What a task begins, it begins one after another. -/
theorem Begins.in_turn (h₁ : Begins setting t t₁) (h₂ : Begins setting t t₂) :
    t.InTurn setting t₁ t₂ := by
  cases h₁ with
  -- These begin at most one moment.
  | inner | operand | body | native | looked | printed | expr | print
  | initializer | block | loop | ret =>
    cases h₂
    exact .inl rfl
  -- An assignment: the value, then the name it is given to.
  | assigned =>
    cases h₂ with
    | assigned => exact .inl rfl
    | store hv => exact .before (.of_ok hv .assigned (.store hv) rfl rfl)
  | store hv =>
    cases h₂ with
    | assigned => exact .after (.of_ok hv .assigned (.store hv) rfl rfl)
    | store hv' =>
      obtain ⟨rfl, rfl⟩ := eq_of_ok hv hv'
      exact .inl rfl
  -- A binary operation: one operand behind the other.
  | left =>
    cases h₂ with
    | left => exact .inl rfl
    | right ha => exact .before (.of_ok ha .left (.right ha) rfl rfl)
  | right ha =>
    cases h₂ with
    | left => exact .after (.of_ok ha .left (.right ha) rfl rfl)
    | right ha' =>
      obtain ⟨rfl, rfl⟩ := eq_of_ok ha ha'
      exact .inl rfl
  -- A logical operation: the second operand only where the first leaves it
  -- open.
  | first =>
    cases h₂ with
    | first => exact .inl rfl
    | second ha hopen =>
      exact .before (.of_ok ha .first (.second ha hopen) rfl rfl)
  | second ha hopen =>
    cases h₂ with
    | first => exact .after (.of_ok ha .first (.second ha hopen) rfl rfl)
    | second ha' =>
      obtain ⟨rfl, rfl⟩ := eq_of_ok ha ha'
      exact .inl rfl
  -- A call: the callee, the arguments, the call itself. From the first to the
  -- last it takes two turns.
  | callee =>
    cases h₂ with
    | callee => exact .inl rfl
    | args hf hcall =>
      exact .before (.of_ok hf .callee (.args hf hcall) rfl rfl)
    | call hf hcall hargs =>
      exact .before (.trans (.of_ok hf .callee (.args hf hcall) rfl rfl)
        (.args hf hcall)
        (.of_ok hargs (.args hf hcall) (.call hf hcall hargs) rfl rfl))
  | args hf hcall =>
    cases h₂ with
    | callee => exact .after (.of_ok hf .callee (.args hf hcall) rfl rfl)
    | args hf' =>
      obtain ⟨rfl, rfl⟩ := eq_of_ok hf hf'
      exact .inl rfl
    | call hf' _ hargs =>
      obtain ⟨rfl, rfl⟩ := eq_of_ok hf hf'
      exact .before (.of_ok hargs (.args hf hcall) (.call hf hcall hargs) rfl
        rfl)
  | call hf hcall hargs =>
    cases h₂ with
    | callee =>
      exact .after (.trans (.of_ok hf .callee (.args hf hcall) rfl rfl)
        (.args hf hcall)
        (.of_ok hargs (.args hf hcall) (.call hf hcall hargs) rfl rfl))
    | args hf' =>
      obtain ⟨rfl, rfl⟩ := eq_of_ok hf hf'
      exact .after (.of_ok hargs (.args hf hcall) (.call hf hcall hargs) rfl
        rfl)
    | call hf' _ hargs' =>
      obtain ⟨rfl, rfl⟩ := eq_of_ok hf hf'
      obtain ⟨rfl, rfl⟩ := eq_of_ok hargs hargs'
      exact .inl rfl
  -- A list of expressions: the first, then all others.
  | firstArg =>
    cases h₂ with
    | firstArg => exact .inl rfl
    | moreArgs hv => exact .before (.of_ok hv .firstArg (.moreArgs hv) rfl rfl)
  | moreArgs hv =>
    cases h₂ with
    | firstArg => exact .after (.of_ok hv .firstArg (.moreArgs hv) rfl rfl)
    | moreArgs hv' =>
      obtain ⟨rfl, rfl⟩ := eq_of_ok hv hv'
      exact .inl rfl
  -- A native: the call it asks for, then what it does with the answer.
  | asked =>
    cases h₂ with
    | asked => exact .inl rfl
    | answered hv => exact .before (.of_ok hv .asked (.answered hv) rfl rfl)
  | answered hv =>
    cases h₂ with
    | asked => exact .after (.of_ok hv .asked (.answered hv) rfl rfl)
    | answered hv' =>
      obtain ⟨rfl, rfl⟩ := eq_of_ok hv hv'
      exact .inl rfl
  -- A condition: the test, then the branch it chooses. There is no turn between
  -- the two branches, so one of them is not begun.
  | test =>
    cases h₂ with
    | test => exact .inl rfl
    | yes hv htrue => exact .before (.of_ok hv .test (.yes hv htrue) rfl rfl)
    | no hv hfalse => exact .before (.of_ok hv .test (.no hv hfalse) rfl rfl)
  | yes hv htrue =>
    cases h₂ with
    | test => exact .after (.of_ok hv .test (.yes hv htrue) rfl rfl)
    | yes hv' =>
      obtain ⟨rfl, rfl⟩ := eq_of_ok hv hv'
      exact .inl rfl
    | no hv' hfalse =>
      obtain ⟨rfl, rfl⟩ := eq_of_ok hv hv'
      cases htrue.symm.trans hfalse
  | no hv hfalse =>
    cases h₂ with
    | test => exact .after (.of_ok hv .test (.no hv hfalse) rfl rfl)
    | yes hv' htrue =>
      obtain ⟨rfl, rfl⟩ := eq_of_ok hv hv'
      cases htrue.symm.trans hfalse
    | no hv' =>
      obtain ⟨rfl, rfl⟩ := eq_of_ok hv hv'
      exact .inl rfl
  -- A loop: the test, the body, and what is left of the loop.
  | loopTest =>
    cases h₂ with
    | loopTest => exact .inl rfl
    | loopBody hv htrue =>
      exact .before (.of_ok hv .loopTest (.loopBody hv htrue) rfl rfl)
    | again hv htrue hbody =>
      exact .before (.trans (.of_ok hv .loopTest (.loopBody hv htrue) rfl rfl)
        (.loopBody hv htrue)
        (.of_ok hbody (.loopBody hv htrue) (.again hv htrue hbody) rfl rfl))
  | loopBody hv htrue =>
    cases h₂ with
    | loopTest =>
      exact .after (.of_ok hv .loopTest (.loopBody hv htrue) rfl rfl)
    | loopBody hv' =>
      obtain ⟨rfl, rfl⟩ := eq_of_ok hv hv'
      exact .inl rfl
    | again hv' _ hbody =>
      obtain ⟨rfl, rfl⟩ := eq_of_ok hv hv'
      exact .before (.of_ok hbody (.loopBody hv htrue)
        (.again hv htrue hbody) rfl rfl)
  | again hv htrue hbody =>
    cases h₂ with
    | loopTest =>
      exact .after (.trans (.of_ok hv .loopTest (.loopBody hv htrue) rfl rfl)
        (.loopBody hv htrue)
        (.of_ok hbody (.loopBody hv htrue) (.again hv htrue hbody) rfl rfl))
    | loopBody hv' =>
      obtain ⟨rfl, rfl⟩ := eq_of_ok hv hv'
      exact .after (.of_ok hbody (.loopBody hv htrue)
        (.again hv htrue hbody) rfl rfl)
    | again hv' _ hbody' =>
      obtain ⟨rfl, rfl⟩ := eq_of_ok hv hv'
      obtain ⟨-, rfl⟩ := eq_of_ok hbody hbody'
      exact .inl rfl
  -- A list of statements, as of expressions.
  | firstStmt =>
    cases h₂ with
    | firstStmt => exact .inl rfl
    | moreStmts hs =>
      exact .before (.of_ok hs .firstStmt (.moreStmts hs) rfl rfl)
  | moreStmts hs =>
    cases h₂ with
    | firstStmt => exact .after (.of_ok hs .firstStmt (.moreStmts hs) rfl rfl)
    | moreStmts hs' =>
      obtain ⟨-, rfl⟩ := eq_of_ok hs hs'
      exact .inl rfl

-- ============================================================== precedence

/-- The states of the run from the moment: the first machine does not come
after the second. -/
inductive Moment.Precedes (setting : Setting) (t : Moment) :
    Machine → Machine → Prop where
  | begins {t₁ t₂ : Moment} : Reaches setting t t₁ → Begins setting t₁ t₂ →
      Precedes setting t t₁.machine t₂.machine
  | runs {t₁ : Moment} : Reaches setting t t₁ →
      Precedes setting t t₁.machine (t₁.after setting)
  /-- What a task begins has ended when the task itself has ended. -/
  | ends {t₁ t₂ : Moment} : Reaches setting t t₁ → Begins setting t₁ t₂ →
      Precedes setting t (t₂.after setting) (t₁.after setting)
  | same {m : Machine} : Precedes setting t m m
  | trans {m₁ m₂ m₃ : Machine} : Precedes setting t m₁ m₂ →
      Precedes setting t m₂ m₃ → Precedes setting t m₁ m₃

/-- The machine is that at the moment, or that when its task has ended. -/
inductive Moment.Edge (setting : Setting) (t : Moment) : Machine → Prop where
  | start : Edge setting t t.machine
  | ending : Edge setting t (t.after setting)

namespace Moment

/-- What comes in order in a part of the run comes so in the run. -/
theorem Precedes.lift (h : Reaches setting t t')
    (hprecedes : t'.Precedes setting m₁ m₂) : t.Precedes setting m₁ m₂ := by
  induction hprecedes with
  | begins hreaches hbegins => exact .begins (h.trans hreaches) hbegins
  | runs hreaches => exact .runs (h.trans hreaches)
  | ends hreaches hbegins => exact .ends (h.trans hreaches) hbegins
  | same => exact .same
  | trans _ _ ih ih' => exact .trans ih ih'

/-- All that a task comes upon is between its start and its end. -/
theorem Edge.between (hedge : t'.Edge setting m) (h : Reaches setting t t') :
    t.Precedes setting t.machine m ∧
      t.Precedes setting m (t.after setting) := by
  have hends : t.Precedes setting t.machine t'.machine ∧
      t.Precedes setting (t'.after setting) (t.after setting) := by
    clear hedge
    induction h with
    | refl => exact ⟨.same, .same⟩
    | tail hreaches hbegins ih =>
      exact ⟨.trans ih.1 (.begins hreaches hbegins),
        .trans (.ends hreaches hbegins) ih.2⟩
  obtain ⟨hstart, hending⟩ := hends
  cases hedge with
  | start => exact ⟨hstart, .trans (.runs h) hending⟩
  | ending => exact ⟨.trans hstart (.runs h), hending⟩

/-- What has its turn before another has ended when the other begins. -/
theorem Turn.precedes (h : t.Turn setting t₁ t₂) :
    t.Precedes setting (t₁.after setting) t₂.machine := by
  induction h with
  | @next t₁ t₂ _ _ hleft =>
    rw [hleft]
    exact .same
  | trans _ hbegins _ ih ih' =>
    exact .trans ih (.trans (.runs (.single hbegins)) ih')

/-- So has all that it comes upon, and so begins all that the other comes
upon. -/
theorem Turn.edges_precede (h : t.Turn setting t₁ t₂)
    (hbegins₁ : Begins setting t t₁) (hbegins₂ : Begins setting t t₂)
    {t₁' t₂' : Moment} (hreaches₁ : Reaches setting t₁ t₁')
    (hreaches₂ : Reaches setting t₂ t₂') (hedge₁ : t₁'.Edge setting m₁)
    (hedge₂ : t₂'.Edge setting m₂) : t.Precedes setting m₁ m₂ := by
  obtain ⟨-, hended⟩ := hedge₁.between hreaches₁
  obtain ⟨hbegun, -⟩ := hedge₂.between hreaches₂
  exact .trans (hended.lift (.single hbegins₁))
    (.trans h.precedes (hbegun.lift (.single hbegins₂)))

/-- Of two states of a run, one precedes the other. -/
theorem precedes_or (h₁ : Reaches setting t t₁) (h₂ : Reaches setting t t₂)
    (hedge₁ : t₁.Edge setting m₁) (hedge₂ : t₂.Edge setting m₂) :
    t.Precedes setting m₁ m₂ ∨ t.Precedes setting m₂ m₁ := by
  induction h₁ using Relation.ReflTransGen.head_induction_on with
  | refl =>
    obtain ⟨hstart, hending⟩ := hedge₂.between h₂
    cases hedge₁ with
    | start => exact .inl hstart
    | ending => exact .inr hending
  | @head t b hbegins hreaches ih =>
    obtain ⟨hstart, hending⟩ := hedge₁.between (.head hbegins hreaches)
    rcases h₂.cases_head with rfl | ⟨b', hbegins', hreaches'⟩
    · cases hedge₂ with
      | start => exact .inr hstart
      | ending => exact .inl hending
    · rcases hbegins.in_turn hbegins' with rfl | hturn | hturn
      · rcases ih hreaches' with hprecedes | hprecedes
        · exact .inl (hprecedes.lift (.single hbegins))
        · exact .inr (hprecedes.lift (.single hbegins))
      · exact .inl (hturn.edges_precede hbegins hbegins' hreaches hreaches'
          hedge₁ hedge₂)
      · exact .inr (hturn.edges_precede hbegins' hbegins hreaches' hreaches
          hedge₂ hedge₁)

/-- What is bound at a state is bound at those that it precedes. -/
theorem Precedes.widens (haccess : setting.access.Honest)
    (h : t.Precedes setting m m') : m.store.Widens m'.store := by
  induction h with
  | begins _ hbegins => exact (widens_of_reaches haccess (.single hbegins)).1
  | @runs t₁ => exact t₁.widens_after haccess
  | ends _ hbegins => exact (widens_of_reaches haccess (.single hbegins)).2
  | same => exact .refl _
  | trans _ _ ih ih' => exact ih.trans ih'

end Moment

end Lox
