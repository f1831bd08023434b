/-
Runs of a tree with other nodes. A lexical run looks at the nodes of a
tree only to say where a fault was met. So if the nodes of a program are
replaced, and those of the functions in memory with them, and if more
was printed before, then the run goes the same way (`carries_runProgram`):
it prints the same behind what was there, and ends with the same, up to
the nodes.

# How it is shown

`Carries h` says it of two runs, where `h` takes the results of the one
to those of the other. It holds of the small steps, it is kept when runs
are put together, and by induction on the room it holds of evaluation.
-/
import Lox.Proofs.Run.Laws
import Lox.Proofs.Run.MapFunctions
import Lox.Proofs.Scoping.Lexical
import Lox.Proofs.Tree.Nodes

namespace Lox

/-- The function with other nodes in its body. -/
def Function.mapNodes (f : Node → Node) (fn : Function) : Function :=
  { fn with body := Stmt.mapAll f fn.body }

/-- Other nodes in its body leave a function its stamp, its name and its
parameters, which are all that is ever seen of it from outside. -/
theorem unnoticed_mapNodes (f : Node → Node) :
    Unnoticed (Function.mapNodes f) :=
  ⟨fun _ => rfl, fun _ => rfl, fun _ => rfl⟩

/-- A value with other nodes in its functions. -/
abbrev Value.mapNodes (f : Node → Node) (v : Value) : Value :=
  v.mapFn (Function.mapNodes f)

/-- The end of a statement with other nodes in its functions. -/
abbrev Completion.mapNodes (f : Node → Node) (c : Completion) : Completion :=
  c.mapFn (Function.mapNodes f)

/-- An interruption with other nodes. -/
abbrev Interruption.mapNodes (f : Node → Node) (stop : Interruption) :
    Interruption :=
  stop.mapFn (Function.mapNodes f) f

namespace Lexical

open Lox.Run

section Carrying

variable (f : Node → Node) (before : String)

/-- The memory with other nodes in its functions, when something was
printed before. -/
def Memory.carry (μ : Memory) : Memory :=
  { μ with
    cells := μ.cells.map (·.mapNodes f)
    globals := μ.globals.mapFn (Function.mapNodes f)
    output := before ++ μ.output }

variable {α β : Type}

/-- What a run has come to, carried over. -/
def carryResult (h : α → β) :
    EStateM.Result Interruption Memory α →
      EStateM.Result Interruption Memory β
  | .ok a μ => .ok (h a) (μ.carry f before)
  | .error stop μ => .error (stop.mapNodes f) (μ.carry f before)

/-- From the memory carried over, the second run comes to what the first
comes to, carried over. -/
def Carries (h : α → β) (run : RunOn Memory α) (run' : RunOn Memory β) :
    Prop :=
  ∀ μ, run' (μ.carry f before) = carryResult f before h (run μ)

end Carrying

variable {f : Node → Node} {before : String} {α β γ δ : Type}

-- ============================================================ small steps

namespace Carries

variable {h : α → β}

/-- A result that is there at once is carried over as it is. -/
theorem pure (a : α) : Carries f before h (pure a) (pure (h a)) :=
  fun _ => rfl

/-- A fault is raised without a node, so only the functions that it names, if
it names any, are carried over. -/
theorem raise (fault : RuntimeFault) :
    Carries f before h (raise fault)
      (raise (fault.mapFn (Function.mapNodes f))) :=
  fun _ => rfl

/-- To run out of room has to do with how deep the tree is, and not with its
nodes. -/
theorem overflow :
    Carries f before h (throw .stackOverflow) (throw .stackOverflow) :=
  fun _ => rfl

/-- The result of an operation, or its fault, if the operation itself comes to
what is carried over. -/
theorem ofExcept {result : Except RuntimeFault α}
    {result' : Except RuntimeFault β}
    (hresult : result' = (result.map h).mapError
      (·.mapFn (Function.mapNodes f))) :
    Carries f before h (ofExcept result) (ofExcept result') := by
  subst hresult
  cases result with
  | ok a => exact .pure a
  | error fault => exact .raise fault

/-- A run that begins with a look at the memory. -/
theorem inspect {run : Memory → RunOn Memory α}
    {run' : Memory → RunOn Memory β}
    (hrun : ∀ μ, Carries f before h (run μ) (run' (μ.carry f before))) :
    Carries f before h (get >>= run) (get >>= run') :=
  fun μ => hrun μ μ

/-- A change of the memory is carried over if the changed memory is. -/
theorem modify {u u' : Memory → Memory}
    (hu : ∀ μ, u' (μ.carry f before) = (u μ).carry f before) :
    Carries f before id (modify u) (modify u') := by
  intro μ
  show EStateM.Result.ok _ _ = EStateM.Result.ok _ _
  rw [hu]

/-- The same for a change that gives something back. -/
theorem modifyGet {u : Memory → α × Memory} {u' : Memory → β × Memory}
    (hu : ∀ μ, u' (μ.carry f before)
      = (h (u μ).1, (u μ).2.carry f before)) :
    Carries f before h (modifyGet u) (modifyGet u') := by
  intro μ
  show (match u' (μ.carry f before) with
    | (b, μ') => EStateM.Result.ok b μ') = _
  rw [hu]
  rfl

/-- Runs one behind the other: what the first comes to is carried over before
the second goes on with it. -/
theorem bind {h : α → β} {k : γ → δ} {run : RunOn Memory α}
    {run' : RunOn Memory β} {next : α → RunOn Memory γ}
    {next' : β → RunOn Memory δ} (hrun : Carries f before h run run')
    (hnext : ∀ a, Carries f before k (next a) (next' (h a))) :
    Carries f before k (run >>= next) (run' >>= next') := by
  intro μ
  rw [bind_apply, bind_apply, hrun μ]
  cases run μ with
  | ok a μ' => exact hnext a μ'
  | error stop μ' => rfl

/-- Here alone a node is looked at. The fault gets the other node where it
would have got this one, and a fault that has its node keeps it. -/
theorem located {run : RunOn Memory α} {run' : RunOn Memory β}
    (hrun : Carries f before h run run') (node : Node) :
    Carries f before h (located node run) (located (f node) run') := by
  intro μ
  unfold Run.located
  rw [hrun μ]
  cases run μ with
  | ok a μ' => rfl
  | error stop μ' => rcases stop with ⟨_, _ | _⟩ | _ | _ | _ <;> rfl

end Carries

-- =============================================================== memory

namespace Memory

variable (μ : Memory) (view : View) (name : String)

/-- A name is found at the same location, which holds the value with other
nodes in it; or it is not found, with the same fault. -/
theorem find_carry :
    (μ.carry f before).find view name
      = ((μ.find view name).map fun (location, v) =>
          (location, v.mapNodes f)).mapError
            (·.mapFn (Function.mapNodes f)) := by
  have hvalue : (view.locals.lookup name).elim
      ((μ.carry f before).globals.find? name) ((μ.carry f before).cells[·]?)
      = ((view.locals.lookup name).elim (μ.globals.find? name)
          (μ.cells[·]?)).map (·.mapNodes f) := by
    cases view.locals.lookup name with
    | none => exact μ.globals.find?_mapFn name
    | some location => exact List.getElem?_map
  by_cases hpending : view.pending = some name
  · rw [find_of_pending _ hpending, find_of_pending _ hpending]
    rfl
  · rw [find_of_not_pending _ hpending, find_of_not_pending _ hpending,
      hvalue]
    cases (view.locals.lookup name).elim (μ.globals.find? name)
      (μ.cells[·]?) <;> rfl

/-- To store a value with other nodes is to store it and then to carry the
memory over. -/
theorem store_carry (location : Option Nat) (v : Value) :
    (μ.carry f before).store location name (v.mapNodes f)
      = (μ.store location name v).carry f before := by
  cases location with
  | none => simp [store, carry, Bindings.put_mapFn]
  | some ℓ => simp [store, carry, List.map_set]

/-- The same for a declaration; it takes the next location, and carrying over
adds and removes none. -/
theorem declare_carry (v : Value) :
    (μ.carry f before).declare view name (v.mapNodes f)
      = (μ.declare view name v).carry f before := by
  unfold declare
  split
  · simp [carry]
  · simp [carry, Bindings.put_mapFn]

end Memory

/-- A variable has the same value, with other nodes in it. -/
theorem carries_readName (view : View) (name : String) :
    Carries f before (Value.mapNodes f) (readName view name)
      (readName view name) :=
  .inspect fun μ => .bind (.ofExcept (μ.find_carry view name)) fun _ =>
    .pure _

/-- An assignment of a value with other nodes goes to the same location. -/
theorem carries_writeName (view : View) (name : String) (v : Value) :
    Carries f before id (writeName view name v)
      (writeName view name (v.mapNodes f)) :=
  .inspect fun μ => .bind (.ofExcept (μ.find_carry view name)) fun found =>
    .modify fun μ' => μ'.store_carry name found.1 v

/-- The memory carried over has as many cells, so the next location is the
same. -/
theorem Memory.length_cells_carry (μ : Memory) :
    (μ.carry f before).cells.length = μ.cells.length :=
  List.length_map _

/-- A declaration shows the same afterwards: what is shown are names and
locations, and no nodes. -/
theorem carries_declare (view : View) (name : String) (v : Value) :
    Carries f before id (declare view name v)
      (declare view name (v.mapNodes f)) := by
  refine .modifyGet fun μ => ?_
  rw [μ.length_cells_carry, μ.declare_carry]
  rfl

/-- The same for parameters, which are declared one after another. -/
theorem carries_declareAll (view : View) (named : List (String × Value)) :
    Carries f before id (declareAll view named)
      (declareAll view (named.map fun p => (p.1, p.2.mapNodes f))) := by
  induction named generalizing view with
  | nil => exact .pure view
  | cons p named ih =>
    exact .bind (carries_declare view p.1 p.2) fun view' => ih view'

/-- A function is declared with the body that has other nodes. It gets the same
stamp, so it is carried over as the one in memory. -/
theorem carries_declareFunction (view : View) (name : String)
    (params : List String) (body : List Stmt) :
    Carries f before id (declareFunction view name params body)
      (declareFunction view name params (Stmt.mapAll f body)) := by
  refine .bind (.modifyGet fun μ => ?_) fun stamp =>
    carries_declare view name
      (.function ⟨stamp, name, params, body, .globals⟩)
  rw [μ.length_cells_carry]
  rfl

/-- A line is printed behind what was printed before, also where more was
printed before. -/
theorem carries_printLine (line : String) :
    Carries f before id (printLine line) (printLine line) :=
  .modify fun μ => by simp [Memory.carry, String.append_assoc]

/-- The clock is not carried over: it shows the same in both runs. -/
theorem carries_readClock :
    Carries f before id readClock readClock :=
  .modifyGet fun _ => rfl

/-- There are as many arguments as before, and they are not looked at. -/
theorem carries_checkArity (expected : Nat) (args : List Value) :
    Carries f before id (checkArity expected args)
      (checkArity expected (args.map (·.mapNodes f))) := by
  unfold checkArity
  rw [List.length_map]
  split
  · exact .pure _
  · exact .raise _

-- ============================================================== sequences

/-- The end of a statement, and the view behind it, which has no nodes. -/
def mapEnd (f : Node → Node) (ended : Completion × View) :
    Completion × View :=
  (ended.1.mapNodes f, ended.2)

namespace Carries

/-- Things that are carried over one by one are carried over in turn. -/
theorem each {run : α → RunOn Memory γ} {run' : β → RunOn Memory δ}
    {h : α → β} {k : γ → δ} {as : List α}
    (hrun : ∀ a ∈ as, Carries f before k (run a) (run' (h a))) :
    Carries f before (List.map k) (each run as) (each run' (as.map h)) := by
  induction as with
  | nil => exact .pure _
  | cons a as ih =>
    rw [List.forall_mem_cons] at hrun
    exact .bind hrun.1 fun _ => .bind (ih hrun.2) fun _ => .pure _

/-- A loop goes as many rounds, if its test and its body are carried over. -/
theorem repeatWhile {test test' : RunOn Memory Bool}
    {body body' : RunOn Memory Completion}
    (htest : Carries f before id test test')
    (hbody : Carries f before (Completion.mapNodes f) body body')
    (rounds : Nat) :
    Carries f before (Completion.mapNodes f) (repeatWhile test body rounds)
      (repeatWhile test' body' rounds) := by
  induction rounds with
  | zero => exact fun _ => rfl
  | succ rounds ih =>
    refine .bind htest fun holds => ?_
    cases holds with
    | false => exact .pure Completion.normal
    | true =>
      refine .bind hbody fun completion => ?_
      cases completion with
      | normal => exact ih
      | returned v => exact .pure (Completion.returned v)

/-- Statements that are carried over one by one end at the same one, with the
same view of what they declared. -/
theorem untilReturn
    {execute : View → Stmt → RunOn Memory (Completion × View)}
    (hexecute : ∀ view s, Carries f before (mapEnd f) (execute view s)
      (execute view (s.mapNodes f)))
    (view : View) (ss : List Stmt) :
    Carries f before (Completion.mapNodes f) (untilReturn execute view ss)
      (untilReturn execute view (Stmt.mapAll f ss)) := by
  induction ss generalizing view with
  | nil => exact .pure Completion.normal
  | cons s ss ih =>
    refine .bind (hexecute view s) fun ended => ?_
    obtain ⟨completion, view'⟩ := ended
    cases completion with
    | normal => exact ih view'
    | returned v => exact .pure (Completion.returned v)

/-- A native sees nothing of the nodes, so it does the same. -/
theorem perform {call : Value → List Value → RunOn Memory Value}
    (hcall : ∀ v args, Carries f before (Value.mapNodes f) (call v args)
      (call (v.mapNodes f) (args.map (·.mapNodes f))))
    (hand : List Value) (deed : Deed) :
    Carries f before (Value.mapNodes f)
      (perform readClock printLine call hand deed)
      (perform readClock printLine call (hand.map (·.mapNodes f)) deed) := by
  induction deed generalizing hand with
  | give v =>
    show Carries f before (Value.mapNodes f) _
      (Pure.pure (v.value (hand.map (·.mapNodes f))))
    rw [v.value_mapFn]
    exact .pure _
  | look next ih => exact .bind carries_readClock fun now => ih now hand
  | print line next ih => exact .bind (carries_printLine line) fun _ => ih hand
  | call v args next ih =>
    show Carries f before (Value.mapNodes f) _ (do
      let u ← call (v.value (hand.map (·.mapNodes f)))
        (args.map (·.value (hand.map (·.mapNodes f))))
      Run.perform readClock printLine call (hand.map (·.mapNodes f) ++ [u])
        (next u.sight))
    rw [v.value_mapFn, Handed.values_mapFn]
    refine .bind (hcall _ _) fun u => ?_
    have hrest := ih u.sight (hand ++ [u])
    rw [List.map_append] at hrest
    rw [u.sight_mapFn (unnoticed_mapNodes f)]
    exact hrest

end Carries

-- ============================================================= evaluation

/-- With this room, evaluation does not depend on nodes. -/
structure CarriesInRoom (f : Node → Node) (before : String)
    (rounds room : Nat) : Prop where
  evaluate : ∀ view e, Carries f before (Value.mapNodes f)
    (evaluate rounds room view e) (evaluate rounds room view (e.mapNodes f))
  call : ∀ v args, Carries f before (Value.mapNodes f)
    (call rounds room v args)
    (call rounds room (v.mapNodes f) (args.map (·.mapNodes f)))
  execute : ∀ view s, Carries f before (mapEnd f)
    (execute rounds room view s) (execute rounds room view (s.mapNodes f))

namespace CarriesInRoom

variable {rounds room : Nat}

/-- With one more step of room an expression is carried over: each of its parts
has less room, and the nodes are only offered to faults. -/
theorem evaluate_succ (h : CarriesInRoom f before rounds room) (view : View)
    (e : Expr) : Carries f before (Value.mapNodes f)
      (Lexical.evaluate rounds (room + 1) view e)
      (Lexical.evaluate rounds (room + 1) view (e.mapNodes f)) := by
  unfold Lexical.evaluate
  rw [Expr.node_mapNodes]
  refine .located ?_ e.node
  cases e with
  | literal node value =>
    have hvalue : value.value.mapNodes f = value.value := value.value_mapFn
    intro μ
    show EStateM.Result.ok value.value _ = .ok (value.value.mapNodes f) _
    rw [hvalue]
  | var node name => exact carries_readName view name
  | assign node name value =>
    exact .bind (h.evaluate view value) fun v =>
      .bind (carries_writeName view name v) fun _ => .pure v
  | group node inner => exact h.evaluate view inner
  | unary node op operand =>
    refine .bind (h.evaluate view operand) fun v => .ofExcept ?_
    rw [op.apply_mapFn]
    cases op.apply v <;> rfl
  | binary node op left right =>
    refine .bind (h.evaluate view left) fun a =>
      .bind (h.evaluate view right) fun b => .ofExcept ?_
    rw [op.apply_mapFn (unnoticed_mapNodes f)]
    cases op.apply a b <;> rfl
  | logical node op left right =>
    refine .bind (h.evaluate view left) fun a => ?_
    rw [op.decidedBy_mapFn]
    split
    · exact .pure a
    · exact h.evaluate view right
  | call node argsId callee args =>
    refine .bind (h.evaluate view callee) fun v => ?_
    rw [Value.callable_mapFn, Expr.mapAll_eq_map]
    split
    · exact .bind (.each fun e _ => h.evaluate view e) fun vs => h.call v vs
    · exact .raise (.notCallable v)

/-- A call is carried over. The body of a function in memory is the body with
other nodes, and it runs in what was shown where the function was made. -/
theorem call_succ (h : CarriesInRoom f before rounds room) (v : Value)
    (args : List Value) : Carries f before (Value.mapNodes f)
      (Lexical.call rounds (room + 1) v args)
      (Lexical.call rounds (room + 1) (v.mapNodes f)
        (args.map (·.mapNodes f))) := by
  cases v with
  | function fn =>
    refine .bind (carries_checkArity fn.params.length args) fun _ =>
      .inspect fun μ => ?_
    have hzip : fn.params.zip (args.map (·.mapNodes f))
        = (fn.params.zip args).map fun p => (p.1, p.2.mapNodes f) :=
      List.zip_map_right
    -- What a function has captured is no tree, so nothing of it is carried
    -- over.
    have hclosure : (μ.carry f before).closure fn.stamp
        = μ.closure fn.stamp := rfl
    show Carries f before (Value.mapNodes f) _ (do
      let view ← declareAll ((μ.carry f before).closure fn.stamp)
        (fn.params.zip (args.map (·.mapNodes f)))
      let completion ← untilReturn (Lexical.execute rounds room) view
        (Stmt.mapAll f fn.body)
      return completion.value)
    rw [hzip, hclosure]
    refine .bind (carries_declareAll _ _) fun view =>
      .bind (.untilReturn h.execute view fn.body) fun completion => ?_
    rw [Completion.value_mapFn]
    exact .pure completion.value
  | native fn =>
    refine .bind (carries_checkArity fn.arity args) fun _ => ?_
    rw [Value.sights_mapFn args (unnoticed_mapNodes f)]
    exact .perform h.call args _
  | _ => exact .raise (.notCallable _)

/-- A statement is carried over, with the view of what it declares. -/
theorem execute_succ (h : CarriesInRoom f before rounds room) (view : View)
    (s : Stmt) : Carries f before (mapEnd f)
      (Lexical.execute rounds (room + 1) view s)
      (Lexical.execute rounds (room + 1) view (s.mapNodes f)) := by
  unfold Lexical.execute
  rw [Stmt.node_mapNodes]
  refine .located ?_ s.node
  cases s with
  | expr node value =>
    exact .bind (h.evaluate view value) fun _ => .pure (Completion.normal, view)
  | print node value =>
    refine .bind (h.evaluate view value) fun v => ?_
    rw [v.printed_mapFn (unnoticed_mapNodes f)]
    exact .bind (carries_printLine v.printed) fun _ =>
      .pure (Completion.normal, view)
  | varDecl node name init =>
    have hrest : ∀ v : Value, Carries f before (mapEnd f)
        (do return (Completion.normal, ← declare view name.text v))
        (do return (Completion.normal,
          ← declare view name.text (v.mapNodes f))) :=
      fun v => .bind (carries_declare view name.text v) fun view' =>
        .pure (Completion.normal, view')
    cases init with
    | none => exact .bind (.pure Value.nil) hrest
    | some e => exact .bind (h.evaluate (view.initializing name.text) e) hrest
  | funDecl node name paramsId params bodyNode body =>
    have hparams : (params.map (·.mapNode f node.id)).map Name.text
        = params.map Name.text := List.map_map
    show Carries f before (mapEnd f) _ (do
      return (Completion.normal, ← declareFunction view name.text
        ((params.map (·.mapNode f node.id)).map Name.text)
        (Stmt.mapAll f body)))
    rw [hparams]
    exact .bind (carries_declareFunction view name.text _ body) fun view' =>
      .pure (Completion.normal, view')
  | block node body =>
    exact .bind (.untilReturn h.execute view.inside body) fun completion =>
      .pure (completion, view)
  | cond node test yes no =>
    have hyes : Carries f before (mapEnd f)
        (do return ((← Lexical.execute rounds room view yes).1, view))
        (do return ((← Lexical.execute rounds room view (yes.mapNodes f)).1,
          view)) :=
      .bind (h.execute view yes) fun ended => .pure (ended.1, view)
    cases no with
    | none =>
      refine .bind (h.evaluate view test) fun v => ?_
      rw [Value.truthy_mapFn]
      split
      · exact hyes
      · exact .pure (Completion.normal, view)
    | some no =>
      refine .bind (h.evaluate view test) fun v => ?_
      rw [Value.truthy_mapFn]
      split
      · exact hyes
      · exact .bind (h.execute view no) fun ended => .pure (ended.1, view)
  | loop node test body =>
    have htest : Carries f before id
        (return (← Lexical.evaluate rounds room view test).truthy)
        (return (← Lexical.evaluate rounds room view
          (test.mapNodes f)).truthy) := by
      refine .bind (h.evaluate view test) fun v => ?_
      rw [Value.truthy_mapFn]
      exact .pure v.truthy
    have hbody : Carries f before (Completion.mapNodes f)
        (return (← Lexical.execute rounds room view body).1)
        (return (← Lexical.execute rounds room view (body.mapNodes f)).1) :=
      .bind (h.execute view body) fun ended => .pure ended.1
    exact .bind (.repeatWhile htest hbody rounds) fun completion =>
      .pure (completion, view)
  | ret node value =>
    cases value with
    | none => exact .pure (Completion.returned .nil, view)
    | some e =>
      exact .bind (h.evaluate view e) fun v =>
        .pure (Completion.returned v, view)

end CarriesInRoom

/-- All evaluation is carried over, by induction on the room there is for it. -/
theorem carriesInRoom (f : Node → Node) (before : String)
    (rounds room : Nat) : CarriesInRoom f before rounds room := by
  induction room with
  | zero => exact ⟨fun _ _ => .overflow, fun _ _ => .overflow,
      fun _ _ => .overflow⟩
  | succ room ih => exact ⟨ih.evaluate_succ, ih.call_succ, ih.execute_succ⟩

/-- A program with other nodes, in a memory with other nodes, runs as it would
have, behind whatever was printed before. -/
theorem carries_runProgram (f : Node → Node) (before : String)
    (rounds room : Nat) (program : List Stmt) :
    Carries f before id (runProgram rounds room program)
      (runProgram rounds room (Stmt.mapAll f program)) := by
  have hroom := carriesInRoom f before rounds room
  refine .bind (.untilReturn hroom.execute .top program) fun completion => ?_
  cases completion with
  | normal => exact .pure ()
  | returned v => exact fun _ => rfl

end Lexical

end Lox
