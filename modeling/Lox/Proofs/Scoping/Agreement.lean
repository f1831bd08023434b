/-
The two evaluators agree. From related moments, an expression, a call
and a statement end alike in both, in related moments again
(`Agree`). The induction is on the room that is left; each case takes
the parts from the room below and puts them together as `Simulates`
allows.

# The scopes behind a statement

What follows a statement in its block sees what the statement declared,
so what is shown of a statement says what can be seen behind it. A branch
or the body of a loop is no declaration, and changes nothing for what
follows.
-/
import Lox.Proofs.Scoping.Declaring

namespace Lox

/-- What is no declaration leaves the scopes as they were. -/
theorem Stmt.scopesAfter_of_not_declares {s : Stmt}
    (h : s.declares = false) (scopes : Scopes) :
    s.scopesAfter scopes = scopes := by
  cases s <;> first | rfl | cases h

namespace Scoping

open Lexical (Locals View Memory)
open Run

variable {depths : Depths} {limit rounds room : Nat} {w : World}
  {scopes : Scopes} {view : View}

/-- A value that is no function is the same in both runs. -/
theorem SameValue.of_plain {v : Value} (h : ∀ f, v ≠ .function f) :
    SameValue (tableOf depths) limit w v v := by
  refine ⟨?_, fun f hf => absurd hf (h f)⟩
  cases v <;> first | rfl | exact absurd rfl (h _)

theorem Plain.faithful (p : Plain) :
    FaithfulValue (tableOf depths) limit w p.value :=
  fun f heq => absurd heq (p.value_ne_function f)

/-- The setting of a run by depths. -/
abbrev settingOf (depths : Depths) (rounds : Nat) : Setting :=
  ⟨.byDepth depths, rounds⟩

-- ============================================================ agreement

/-- What an expression in this room does from related moments. -/
def EvaluateAgrees (depths : Depths) (limit rounds room : Nat) : Prop :=
  ∀ {w : World} {scopes : Scopes} {view : View} {e : Expr},
    Related (tableOf depths) limit w → Sees w scopes view →
    e.Bound (tableOf depths) (scopes.expecting view.pending) view.pending →
      Simulates (tableOf depths) limit false w
        (evaluate (settingOf depths rounds) room e)
        (Lexical.evaluate rounds room view e)
        (SameValue (tableOf depths) limit)

/-- What a call in this room does from related moments. -/
def CallAgrees (depths : Depths) (limit rounds room : Nat) : Prop :=
  ∀ {w : World} {f : Value} {args : List Value},
    Related (tableOf depths) limit w →
    FaithfulValue (tableOf depths) limit w f →
    (∀ a ∈ args, FaithfulValue (tableOf depths) limit w a) →
      Simulates (tableOf depths) limit false w
        (call (settingOf depths rounds) room f args)
        (Lexical.call rounds room f.unclosed (args.map Value.unclosed))
        (SameValue (tableOf depths) limit)

/-- The end of a statement in both runs, and what can be seen behind
it. -/
def Behind (table : Table) (limit : Nat) (scopes : Scopes) (w : World)
    (a : Completion) (b : Completion × View) : Prop :=
  SameCompletion table limit w a b.1 ∧ Sees w scopes b.2 ∧
    b.2.pending = none

/-- What a statement in this room does from related moments. -/
def ExecuteAgrees (depths : Depths) (limit rounds room : Nat) : Prop :=
  ∀ {w : World} {scopes : Scopes} {view : View} {s : Stmt},
    Related (tableOf depths) limit w → Sees w scopes view →
    view.pending = none → s.Placed (tableOf depths) limit scopes →
      Simulates (tableOf depths) limit s.declares w
        (execute (settingOf depths rounds) room s)
        (Lexical.execute rounds room view s)
        (Behind (tableOf depths) limit (s.scopesAfter scopes))

-- ========================================================= expressions

/-- An expression, with its parts and its calls in the room below. -/
theorem evaluate_succ
    (hevaluate : EvaluateAgrees depths limit rounds room)
    (hcall : CallAgrees depths limit rounds room) :
    EvaluateAgrees depths limit rounds (room + 1) := by
  intro w scopes view e hw hsees hbound
  unfold evaluate Lexical.evaluate
  refine .located ?_
  cases e with
  | literal node value =>
    exact .pure hw (.of_plain value.value_ne_function)
  | var node name => exact hsees.readName hw hbound.2
  | assign node name value =>
    refine (hevaluate hw hsees hbound.1).bind fun w₁ a b hw₁ hext₁ hab => ?_
    obtain ⟨rfl, ha⟩ := hab
    refine ((hsees.mono hext₁).writeName hw₁ hbound.2 ha).bind
      fun w₂ _ _ hw₂ hext₂ _ => ?_
    exact .pure hw₂ ⟨rfl, ha.mono hext₂⟩
  | group node inner => exact hevaluate hw hsees hbound
  | unary node op operand =>
    refine (hevaluate (e := operand) hw hsees hbound).bind
      fun w₁ a b hw₁ hext₁ hab => ?_
    obtain ⟨rfl, -⟩ := hab
    rw [op.apply_mapFn]
    exact .ofExcept hw₁ (op.apply_ne_function a)
  | binary node op left right =>
    refine (hevaluate hw hsees hbound.1).bind fun w₁ a b hw₁ hext₁ hab => ?_
    obtain ⟨rfl, -⟩ := hab
    refine (hevaluate hw₁ (hsees.mono hext₁) hbound.2).bind
      fun w₂ c d hw₂ hext₂ hcd => ?_
    obtain ⟨rfl, -⟩ := hcd
    rw [op.apply_mapFn unnoticed_unclosed]
    exact .ofExcept hw₂ (op.apply_ne_function a c)
  | logical node op left right =>
    refine (hevaluate hw hsees hbound.1).bind fun w₁ a b hw₁ hext₁ hab => ?_
    obtain ⟨rfl, ha⟩ := hab
    rw [op.decidedBy_mapFn]
    split
    · exact .pure hw₁ ⟨rfl, ha⟩
    · exact hevaluate hw₁ (hsees.mono hext₁) hbound.2
  | call node argsId callee args =>
    refine (hevaluate hw hsees hbound.1).bind fun w₁ f g hw₁ hext₁ hfg => ?_
    obtain ⟨rfl, hf⟩ := hfg
    rw [Value.callable_mapFn]
    split
    · have hargs := Expr.allBound_iff.1 hbound.2
      refine (Simulates.each hw₁ fun e he w' hw' hext' => hevaluate hw'
        ((hsees.mono hext₁).mono hext') (hargs e he)).bind
          fun w₂ as bs hw₂ hext₂ hall => ?_
      obtain ⟨rfl, has⟩ := hall
      exact hcall hw₂ (hf.mono hext₂) has
    · exact .raise hw₁

-- =============================================================== calls

theorem checkArity_agrees {expected : Nat} {args : List Value}
    (hw : Related (tableOf depths) limit w) :
    Simulates (tableOf depths) limit false w (checkArity expected args)
      (checkArity expected (args.map Value.unclosed))
      fun _ _ _ => args.length = expected := by
  unfold checkArity
  rw [List.length_map]
  split
  · next h => exact .pure hw h
  · exact .raise hw

/-- The time is the same in both runs, and goes on alike. -/
theorem readClock_agrees (hw : Related (tableOf depths) limit w) :
    Simulates (tableOf depths) limit false w Run.readClock
      Lexical.readClock fun _ a b => b = a := by
  let w' : World :=
    ⟨{ w.machine with clock := w.machine.clock.later },
      { w.memory with clock := w.memory.clock.later }, w.places⟩
  have hext : Extends false w w' :=
    ⟨rfl, Nat.le_refl _, ⟨[], by simp [w'], nofun⟩, fun _ _ h => h⟩
  have hw' : Related (tableOf depths) limit w' :=
    { hw with
      faithful := fun scope name v hv =>
        (hw.faithful scope name v hv).mono hext
      clock := by simp [w', hw.clock] }
  exact .of_ok w' rfl rfl hw' hext (congrArg Clock.now hw.clock)

/-- A line is printed in both runs. -/
theorem printLine_agrees (hw : Related (tableOf depths) limit w)
    (line : String) :
    Simulates (tableOf depths) limit false w (Run.printLine line)
      (Lexical.printLine line) fun _ _ _ => True := by
  let w' : World :=
    ⟨{ w.machine with output := w.machine.output ++ line ++ "\n" },
      { w.memory with output := w.memory.output ++ line ++ "\n" }, w.places⟩
  have hext : Extends false w w' :=
    ⟨rfl, Nat.le_refl _, ⟨[], by simp [w'], nofun⟩, fun _ _ h => h⟩
  have hw' : Related (tableOf depths) limit w' :=
    { hw with
      faithful := fun scope name v hv =>
        (hw.faithful scope name v hv).mono hext
      output := by simp [w', hw.output] }
  exact .of_ok w' rfl rfl hw' hext trivial

/-- The result of a run may as well be taken inside its environment. -/
theorem within_map {α β : Type} (env : Env) (f : α → β) (run : Run α) :
    (do let a ← within env run; return f a)
      = within env (do let a ← run; return f a) := by
  funext m
  rw [bind_apply]
  unfold within
  rw [bind_apply]
  cases run { m with env } <;> rfl

/-- Parameters may as well be declared inside the environment of the
call. -/
theorem defineAll_within {α : Type} (env : Env)
    (named : List (String × Value)) (run : Run α) :
    (do defineAll env named; within env run)
      = within env (do defineAll env named; run) :=
  rfl

/-- The statements of a block or a body. -/
def UntilReturnAgrees (depths : Depths) (limit rounds room : Nat) : Prop :=
  ∀ {ss : List Stmt} {w : World} {scopes : Scopes} {view : View},
    Related (tableOf depths) limit w → Sees w scopes view →
    view.pending = none → Stmt.AllPlaced (tableOf depths) limit scopes ss →
      Simulates (tableOf depths) limit true w
        (Run.untilReturn (execute (settingOf depths rounds) room) ss)
        (Lexical.untilReturn (Lexical.execute rounds room) view ss)
        (SameCompletion (tableOf depths) limit)

/-- Statements one after another, each seeing what those before it
declared. -/
theorem untilReturn_agrees
    (hexecute : ExecuteAgrees depths limit rounds room) :
    UntilReturnAgrees depths limit rounds room := by
  intro ss
  induction ss with
  | nil =>
    intro w scopes view hw _ _ _
    exact .pure hw ⟨rfl, nofun⟩
  | cons s ss ih =>
    intro w scopes view hw hsees hpending hplaced
    have hfirst := hexecute hw hsees hpending hplaced.head
    refine (hfirst.weaken fun _ => rfl).bind fun w₁ a b hw₁ hext₁ hab => ?_
    obtain ⟨c, behind⟩ := b
    obtain ⟨⟨rfl, hreturned⟩, hsees₁, hpending₁⟩ := hab
    cases a with
    | normal => exact ih hw₁ hsees₁ hpending₁ hplaced.tail
    | returned v => exact .pure hw₁ ⟨rfl, hreturned⟩

/-- The body of a function, run from the world that a call makes for
it. -/
theorem body_agrees (hexecute : ExecuteAgrees depths limit rounds room)
    {f : Function} {args : List Value} {locals : Locals}
    (hw : Related (tableOf depths) limit w)
    (hshows : Shows w.places scopes f.closure.chain locals)
    (hparams : f.params.Nodup)
    (hplaced : Stmt.AllPlaced (tableOf depths) limit
      (f.params.reverse :: scopes) f.body)
    (hargs : ∀ a ∈ args, FaithfulValue (tableOf depths) limit w a)
    (harity : args.length = f.params.length) :
    Simulates (tableOf depths) limit true
      (w.grow.at ⟨w.machine.store.size, f.closure.chain⟩)
      (do defineAll ⟨w.machine.store.size, f.closure.chain⟩
            (f.params.zip args)
          let completion ← Run.untilReturn
            (execute (settingOf depths rounds) room) f.body
          return completion.value)
      (do let view ← Lexical.declareAll ⟨locals, true, none⟩
            ((f.params.zip args).map fun p => (p.1, p.2.unclosed))
          let completion ← Lexical.untilReturn
            (Lexical.execute rounds room) view f.body
          return completion.value)
      (SameValue (tableOf depths) limit) := by
  refine (hshows.parameters hw hparams hargs harity).bind
    fun w₁ _ view hw₁ _ hview => ?_
  obtain ⟨hsees₁, hpending₁⟩ := hview
  refine (untilReturn_agrees hexecute hw₁ hsees₁ hpending₁ hplaced).bind
    fun w₂ a b hw₂ _ hab => ?_
  obtain ⟨rfl, hreturned⟩ := hab
  refine .pure hw₂ ⟨a.value_mapFn, ?_⟩
  cases a with
  | normal => nofun
  | returned v => exact hreturned v rfl

/-- A native sees nothing of closures, so it does the same in both runs,
and what it has in hand stays faithful. -/
theorem perform_agrees (hcall : CallAgrees depths limit rounds room)
    {hand : List Value} (deed : Deed)
    (hw : Related (tableOf depths) limit w)
    (hhand : ∀ v ∈ hand, FaithfulValue (tableOf depths) limit w v) :
    Simulates (tableOf depths) limit false w
      (Run.perform Run.readClock Run.printLine
        (call (settingOf depths rounds) room) hand deed)
      (Run.perform Lexical.readClock Lexical.printLine
        (Lexical.call rounds room) (hand.map Value.unclosed) deed)
      (SameValue (tableOf depths) limit) := by
  induction deed generalizing w hand with
  | give v =>
    exact .pure hw ⟨v.value_mapFn hand, v.value_of_forall Plain.faithful hhand⟩
  | look next ih =>
    refine (readClock_agrees hw).bind fun w₁ _ now hw₁ hext₁ hnow => ?_
    subst hnow
    exact ih now hw₁ fun v hv => (hhand v hv).mono hext₁
  | print line next ih =>
    refine (printLine_agrees hw line).bind fun w₁ _ _ hw₁ hext₁ _ => ?_
    exact ih hw₁ fun v hv => (hhand v hv).mono hext₁
  | call f args next ih =>
    show Simulates _ _ _ _ _ (do
      let v ← Lexical.call rounds room (f.value (hand.map Value.unclosed))
        (args.map (·.value (hand.map Value.unclosed)))
      Run.perform Lexical.readClock Lexical.printLine
        (Lexical.call rounds room) (hand.map Value.unclosed ++ [v])
        (next v.sight)) _
    rw [f.value_mapFn, Handed.values_mapFn]
    refine (hcall hw (f.value_of_forall Plain.faithful hhand)
      (Handed.values_of_forall Plain.faithful hhand args)).bind
        fun w₁ v _ hw₁ hext₁ hv => ?_
    obtain ⟨rfl, hfaithful⟩ := hv
    have hhand₁ : ∀ u ∈ hand ++ [v],
        FaithfulValue (tableOf depths) limit w₁ u :=
      List.forall_mem_append.2 ⟨fun u hu => (hhand u hu).mono hext₁,
        List.forall_mem_singleton.2 hfaithful⟩
    have hrest := ih v.sight hw₁ hhand₁
    rw [List.map_append] at hrest
    rw [v.sight_mapFn unnoticed_unclosed]
    exact hrest

/-- A call, with the body of the function in the room below. -/
theorem call_succ (hcall : CallAgrees depths limit rounds room)
    (hexecute : ExecuteAgrees depths limit rounds room) :
    CallAgrees depths limit rounds (room + 1) := by
  intro w f args hw hf hargs
  cases f with
  | function f =>
    obtain ⟨scopes, locals, hlocals, hshows, hparams, hplaced⟩ := hf f rfl
    refine (checkArity_agrees hw).bind fun w₁ _ _ hw₁ hext₁ harity => ?_
    have hshows₁ := hshows.mono fun _ _ => hext₁.getElem?_places
    have hbody := body_agrees hexecute hw₁ hshows₁ hparams hplaced
      (fun a ha => (hargs a ha).mono hext₁) harity
    -- The parameters may as well be bound inside of the new environment.
    have hcalled : Simulates (tableOf depths) limit false w₁
        (do let env ← enter f.closure
            within env (do
              defineAll env (f.params.zip args)
              let completion ← Run.untilReturn
                (execute (settingOf depths rounds) room) f.body
              return completion.value))
        (do let view ← Lexical.declareAll ⟨locals, true, none⟩
              ((f.params.zip args).map fun p => (p.1, p.2.unclosed))
            let completion ← Lexical.untilReturn
              (Lexical.execute rounds room) view f.body
            return completion.value)
        (SameValue (tableOf depths) limit) :=
      .enclosed (fun _ h => h) hbody
    refine Simulates.congr ?_ ?_ hcalled
    · simp only [← within_map, ← defineAll_within]
    · have hclosure : w₁.memory.closure f.stamp = ⟨locals, true, none⟩ := by
        rw [Memory.closure, hext₁.captured _ _ hlocals]
        rfl
      have hzip : f.params.zip (args.map Value.unclosed)
          = (f.params.zip args).map fun p => (p.1, p.2.unclosed) :=
        List.zip_map_right
      rw [← hclosure, ← hzip]
      rfl
  | native f =>
    refine (checkArity_agrees hw).bind fun w₁ _ _ hw₁ hext₁ _ => ?_
    rw [Value.sights_mapFn args unnoticed_unclosed]
    exact perform_agrees hcall _ hw₁ fun a ha => (hargs a ha).mono hext₁
  | _ => exact .raise hw

-- ========================================================== statements

/-- What can be seen in the initializer of a variable that the scope does
not declare yet. -/
theorem Sees.initializing {name : String} (h : Sees w scopes view)
    (hfresh : scopes.Fresh name) :
    Sees w scopes (view.initializing name) := by
  refine ⟨h.shows, h.own, h.inside, h.nested, fun other hother => ?_⟩
  cases scopes with
  | nil =>
    have hnested : view.nested = false := h.nested
    simp [View.initializing, hnested] at hother
  | cons scope outer =>
    have hnested : view.nested = true := h.nested
    have hname : name = other := by
      simpa [View.initializing, hnested] using hother
    exact ⟨nofun, hname ▸ hfresh⟩

/-- The initializer is bound as the scopes with its variable say. -/
theorem Sees.bound_initializing {table : Table} {name : String} {e : Expr}
    (h : Sees w scopes view)
    (hbound : e.Bound table (scopes.add name) (scopes.pending name)) :
    e.Bound table (scopes.expecting (view.initializing name).pending)
      (view.initializing name).pending := by
  have hnested := h.nested
  have hpending : (view.initializing name).pending = scopes.pending name := by
    cases scopes <;> simp [View.initializing, hnested, Scopes.pending]
  rw [hpending]
  cases scopes <;> exact hbound

theorem SameCompletion.normal :
    SameCompletion (tableOf depths) limit w .normal .normal :=
  ⟨rfl, nofun⟩

/-- An expression that is in no initializer. -/
theorem EvaluateAgrees.settled
    (hevaluate : EvaluateAgrees depths limit rounds room) {e : Expr}
    (hw : Related (tableOf depths) limit w) (hsees : Sees w scopes view)
    (hpending : view.pending = none)
    (hbound : e.Bound (tableOf depths) scopes none) :
    Simulates (tableOf depths) limit false w
      (evaluate (settingOf depths rounds) room e)
      (Lexical.evaluate rounds room view e)
      (SameValue (tableOf depths) limit) := by
  refine hevaluate hw hsees ?_
  rwa [hpending]

/-- A statement that declares nothing leaves the scopes as they were. -/
theorem ExecuteAgrees.plain
    (hexecute : ExecuteAgrees depths limit rounds room) {s : Stmt}
    (hw : Related (tableOf depths) limit w) (hsees : Sees w scopes view)
    (hpending : view.pending = none)
    (hs : s.declares = false ∧ s.Placed (tableOf depths) limit scopes) :
    Simulates (tableOf depths) limit false w
      (execute (settingOf depths rounds) room s)
      (Lexical.execute rounds room view s)
      (Behind (tableOf depths) limit scopes) := by
  have hrun := hexecute hw hsees hpending hs.2
  rwa [hs.1, Stmt.scopesAfter_of_not_declares hs.1] at hrun

/-- The rounds of a loop. Each starts with the view from before the
loop. -/
theorem rounds_agree (hevaluate : EvaluateAgrees depths limit rounds room)
    (hexecute : ExecuteAgrees depths limit rounds room) {test : Expr}
    {body : Stmt} (hw : Related (tableOf depths) limit w)
    (hsees : Sees w scopes view) (hpending : view.pending = none)
    (htest : test.Bound (tableOf depths) scopes none)
    (hround : body.declares = false ∧
      body.Placed (tableOf depths) limit scopes) (budget : Nat) :
    Simulates (tableOf depths) limit false w
      (repeatWhile
        (return (← evaluate (settingOf depths rounds) room test).truthy)
        (execute (settingOf depths rounds) room body) budget)
      (repeatWhile
        (return (← Lexical.evaluate rounds room view test).truthy)
        (return (← Lexical.execute rounds room view body).1) budget)
      (SameCompletion (tableOf depths) limit) := by
  have htested : ∀ w₁, Related (tableOf depths) limit w₁ →
      Extends false w w₁ → Simulates (tableOf depths) limit false w₁
        (return (← evaluate (settingOf depths rounds) room test).truthy)
        (return (← Lexical.evaluate rounds room view test).truthy)
        fun _ a b => b = a := by
    intro w₁ hw₁ hext₁
    refine (hevaluate.settled hw₁ (hsees.mono hext₁) hpending htest).bind
      fun w₂ a b hw₂ _ hab => ?_
    obtain ⟨rfl, -⟩ := hab
    exact .pure hw₂ a.truthy_mapFn
  have hbody : ∀ w₁, Related (tableOf depths) limit w₁ →
      Extends false w w₁ → Simulates (tableOf depths) limit false w₁
        (execute (settingOf depths rounds) room body)
        (return (← Lexical.execute rounds room view body).1)
        (SameCompletion (tableOf depths) limit) := by
    intro w₁ hw₁ hext₁
    have hrun := hexecute.plain hw₁ (hsees.mono hext₁) hpending hround
    exact hrun.returning fun _ _ _ _ hab => hab.1
  exact Simulates.repeatWhile htested hbody budget w hw (.refl false w)

/-- A statement, with its parts in the room below. -/
theorem execute_succ
    (hevaluate : EvaluateAgrees depths limit rounds room)
    (hexecute : ExecuteAgrees depths limit rounds room) :
    ExecuteAgrees depths limit rounds (room + 1) := by
  intro w scopes view s hw hsees hpending hplaced
  have hbound := hplaced.bound
  unfold execute Lexical.execute
  refine .located ?_
  cases s with
  | expr node value =>
    refine (hevaluate.settled (e := value) hw hsees hpending hbound).bind
      fun w₁ _ _ hw₁ hext₁ _ => ?_
    exact .pure hw₁ ⟨.normal, hsees.mono hext₁, hpending⟩
  | print node value =>
    refine (hevaluate.settled (e := value) hw hsees hpending hbound).bind
      fun w₁ a b hw₁ hext₁ hab => ?_
    obtain ⟨rfl, -⟩ := hab
    rw [a.printed_mapFn unnoticed_unclosed]
    refine (printLine_agrees hw₁ _).bind fun w₂ _ _ hw₂ hext₂ _ => ?_
    exact .pure hw₂ ⟨.normal, hsees.mono (hext₁.trans hext₂), hpending⟩
  | varDecl node name init =>
    obtain ⟨hfresh, hinit⟩ := hbound
    -- What is done with the value is the same with and without an initializer.
    have hrest : ∀ w₁ a b, Related (tableOf depths) limit w₁ →
        Extends true w w₁ → Extends false w w₁ ∧
          SameValue (tableOf depths) limit w₁ a b →
        Simulates (tableOf depths) limit true w₁
          (do define name.text a; return .normal)
          (do return (.normal, ← Lexical.declare view name.text b))
          (Behind (tableOf depths) limit (scopes.add name.text)) := by
      rintro w₁ a _ hw₁ - ⟨hext₁, rfl, ha⟩
      refine ((hsees.mono hext₁).define hw₁ hpending hfresh ha).bind
        fun w₂ _ view' hw₂ _ hview => ?_
      exact .pure hw₂ ⟨.normal, hview⟩
    cases init with
    | none =>
      exact (Simulates.pure hw ⟨.refl false w, .of_plain nofun⟩).bind hrest
    | some e =>
      have hfirst := hevaluate hw (hsees.initializing hfresh)
        (hsees.bound_initializing (hinit e rfl))
      exact ((hfirst.imp fun w₁ a b hext hab => And.intro hext hab).weaken
        nofun).bind hrest
  | funDecl node name paramsId params bodyNode body =>
    obtain ⟨hfresh, hparams, -⟩ := hbound
    have hdefine := hsees.defineFunction hw hpending hfresh hparams
      hplaced.function
    have hrest : ∀ w₁ (a : Unit) view',
        Related (tableOf depths) limit w₁ → Extends true w w₁ →
        Sees w₁ (scopes.add name.text) view' ∧ view'.pending = none →
        Simulates (tableOf depths) limit true w₁ (return .normal)
          (return (.normal, view'))
          (Behind (tableOf depths) limit (scopes.add name.text)) :=
      fun w₁ _ view' hw₁ _ hview => .pure hw₁ ⟨.normal, hview⟩
    exact .congr rfl rfl (hdefine.bind hrest)
  | block node body =>
    have hinside := hsees.shows.enter hw
    have hview : view.inside = ⟨view.locals, true, none⟩ := by
      rw [View.inside, hpending]
    rw [← hview] at hinside
    have hbody := untilReturn_agrees hexecute (hw.grow.at _) hinside hpending
      hplaced.block
    have hblock : Simulates (tableOf depths) limit false w
        (do let env ← enter w.machine.env
            within env (Run.untilReturn
              (execute (settingOf depths rounds) room) body))
        (Lexical.untilReturn (Lexical.execute rounds room) view.inside body)
        (SameCompletion (tableOf depths) limit) :=
      .enclosed (fun _ h => h) hbody
    exact .congr rfl rfl (hblock.returning fun w₁ a b hext₁ hab =>
      ⟨hab, hsees.mono hext₁, hpending⟩)
  | cond node test yes no =>
    -- A branch declares nothing, so the view before it is the one behind.
    have hbranch {s : Stmt} {w₁ : World}
        (hw₁ : Related (tableOf depths) limit w₁)
        (hsees₁ : Sees w₁ scopes view)
        (hs : s.declares = false ∧ s.Placed (tableOf depths) limit scopes) :
        Simulates (tableOf depths) limit false w₁
          (execute (settingOf depths rounds) room s)
          (do return ((← Lexical.execute rounds room view s).1, view))
          (Behind (tableOf depths) limit scopes) := by
      have hrun := hexecute.plain hw₁ hsees₁ hpending hs
      exact hrun.returning fun w₂ a b hext₂ hab =>
        ⟨hab.1, hsees₁.mono hext₂, hpending⟩
    refine (hevaluate.settled hw hsees hpending hplaced.test).bind
      fun w₁ a b hw₁ hext₁ hab => ?_
    obtain ⟨rfl, -⟩ := hab
    have hsees₁ := hsees.mono hext₁
    rw [Value.truthy_mapFn]
    split
    · exact hbranch hw₁ hsees₁ hplaced.yes
    · cases no with
      | none => exact .pure hw₁ ⟨.normal, hsees₁, hpending⟩
      | some other => exact hbranch hw₁ hsees₁ hplaced.no
  | loop node test body =>
    have hloop := rounds_agree hevaluate hexecute hw hsees hpending hbound.1
      hplaced.round rounds
    exact hloop.returning fun w₁ a b hext₁ hab =>
      ⟨hab, hsees.mono hext₁, hpending⟩
  | ret node value =>
    cases value with
    | none =>
      refine .pure hw ⟨⟨rfl, ?_⟩, hsees, hpending⟩
      rintro _ ⟨⟩
      nofun
    | some e =>
      refine (hevaluate.settled hw hsees hpending (hbound e rfl)).bind
        fun w₁ a b hw₁ hext₁ hab => ?_
      obtain ⟨rfl, ha⟩ := hab
      refine .pure hw₁ ⟨⟨rfl, ?_⟩, hsees.mono hext₁, hpending⟩
      rintro _ ⟨⟩
      exact ha

-- ========================================================== every room

/-- In whatever room, the evaluators agree. -/
structure Agree (depths : Depths) (limit rounds room : Nat) : Prop where
  evaluate : EvaluateAgrees depths limit rounds room
  call : CallAgrees depths limit rounds room
  execute : ExecuteAgrees depths limit rounds room

theorem agree (depths : Depths) (limit rounds room : Nat) :
    Agree depths limit rounds room := by
  induction room with
  | zero =>
    refine ⟨?_, ?_, ?_⟩
    · intro w scopes view e hw _ _
      unfold Lox.evaluate Lexical.evaluate
      exact .of_error .stackOverflow rfl rfl hw
    · intro w f args hw _ _
      unfold Lox.call Lexical.call
      exact .of_error .stackOverflow rfl rfl hw
    · intro w scopes view s hw _ _ _
      unfold Lox.execute Lexical.execute
      exact .of_error .stackOverflow rfl rfl hw
  | succ room ih =>
    exact ⟨evaluate_succ ih.evaluate ih.call, call_succ ih.call ih.execute,
      execute_succ ih.evaluate ih.execute⟩

/-- At the top level nothing local can be seen. -/
theorem sees_top {table : Table} (hw : Related table limit w)
    (hground : w.machine.env = .globals) : Sees w [] View.top := by
  have hshows : Shows w.places [] w.machine.env.chain [] := by
    rw [hground]
    refine ⟨rfl, ?_, nofun, fun _ _ => rfl⟩
    rintro _ ⟨⟩
    exact ⟨fun _ => rfl, fun _ => rfl⟩
  have hinside : w.machine.env.scope < w.machine.store.size := by
    rw [hground]
    exact hw.size
  exact ⟨hshows, nofun, hinside, rfl, nofun⟩

/-- A program that is bound has the same effect in both runs. -/
theorem runProgram_agrees {program : List Stmt}
    (hw : Related (tableOf depths) limit w)
    (hground : w.machine.env = .globals)
    (hplaced : Stmt.AllPlaced (tableOf depths) limit [] program) :
    Simulates (tableOf depths) limit true w
      (runProgram (settingOf depths rounds) room program)
      (Lexical.runProgram rounds room program) fun _ _ _ => True := by
  unfold runProgram Lexical.runProgram
  refine (untilReturn_agrees (agree depths limit rounds room).execute hw
    (sees_top hw hground) rfl hplaced).bind fun w₁ a b hw₁ _ hab => ?_
  obtain ⟨rfl, -⟩ := hab
  cases a with
  | normal => exact .pure hw₁ trivial
  | returned v => exact .of_error (.strayReturn v) rfl rfl hw₁

end Scoping

end Lox
