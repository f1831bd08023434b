/-
Two runs of respelled programs, side by side. Local names have no part in
what a lexical run leaves in memory: a value has a location, and a
function sees locations by names. So two memories go with each other if
they have the same things at the same places, up to the code of functions
and the names in what these see (`Sides.Respelled`), and the names there
are such that the code of each function is a respelling of that of the
function at the same place (`Seen.Runs`).

Two runs go together if they end alike in such memories. This is closed
under all the ways in which runs are put together, so the two runs of
evaluation need only be compared in their smallest steps.

# Where the spelling shows

Only a fault can show a local name, that of a use which met no value: a
variable in its own initializer. There one name may stand for the other
(`RuntimeFault.Respelled`).
-/
import Lox.Proofs.Respelling.Trees
import Lox.Proofs.Run.Laws
import Lox.Proofs.Run.MapFunctions
import Lox.Proofs.Scoping.Lexical
import Mathlib.Data.List.Forall2

namespace Lox

open List (Forall₂)
open Lexical (Locals View Memory)
open NamePairs (Params)

-- ============================================================== functions

/-- What can be told of a function: its stamp, its name and how many
parameters it has. -/
def Function.face (f : Function) : Function :=
  ⟨f.stamp, f.name, List.replicate f.params.length "", [], .globals⟩

/-- What can be told of a function can be told of its face. -/
theorem unnoticed_face : Unnoticed Function.face :=
  ⟨fun _ => rfl, fun _ => rfl, fun _ => List.length_replicate⟩

/-- Functions that go together take as many arguments. -/
theorem NamePairs.Params.length_eq {Γ inner : NamePairs}
    {names names' : List String} (h : Params Γ names names' inner) :
    names'.length = names.length := by
  induction h with
  | nil => rfl
  | cons _ _ ih => rw [List.length_cons, List.length_cons, ih]

/-- Two lists of names with the same locations. -/
inductive SameLocals : List (String × String) → Locals → Locals → Prop
  | nil : SameLocals [] [] []
  | cons {pairs : List (String × String)} {locals locals' : Locals}
      {name name' : String} {location : Nat}
      (h : SameLocals pairs locals locals') :
      SameLocals ((name, name') :: pairs) ((name, location) :: locals)
        ((name', location) :: locals')

/-- Names with the same meaning have the same location. Those without
one are the same. -/
theorem SameLocals.lookup {pairs : List (String × String)}
    {locals locals' : Locals} (h : SameLocals pairs locals locals')
    {name name' : String} (hsame : SameMeaning pairs name name') :
    locals'.lookup name' = locals.lookup name ∧
      (locals.lookup name = none → name' = name) := by
  induction h with
  | nil => exact ⟨rfl, fun _ => hsame⟩
  | cons h ih =>
    rcases hsame with ⟨rfl, rfl⟩ | ⟨hne, hne', hsame⟩
    · simp
    · rw [List.lookup_cons, List.lookup_cons,
        beq_false_of_ne (Ne.symm hne), beq_false_of_ne (Ne.symm hne')]
      exact ih hsame

/-- What the functions of two runs see, by their stamps. -/
structure Seen where
  left : List (Nat × Locals)
  right : List (Nat × Locals)

/-- What is seen by functions made later comes on top. -/
structure Seen.Grows (seen seen' : Seen) : Prop where
  left : ∀ stamp locals, seen.left.lookup stamp = some locals →
    seen'.left.lookup stamp = some locals
  right : ∀ stamp locals, seen.right.lookup stamp = some locals →
    seen'.right.lookup stamp = some locals

/-- Without another function the same is seen. -/
theorem Seen.Grows.refl (seen : Seen) : seen.Grows seen :=
  ⟨fun _ _ h => h, fun _ _ h => h⟩

/-- What is seen grows from function to function. -/
theorem Seen.Grows.trans {seen seen' seen'' : Seen}
    (h : seen.Grows seen') (h' : seen'.Grows seen'') :
    seen.Grows seen'' :=
  ⟨fun _ _ hs => h'.left _ _ (h.left _ _ hs),
    fun _ _ hs => h'.right _ _ (h.right _ _ hs)⟩

section Values

variable (r : Respelling) (seen : Seen)

/-- The code of the one function is a respelling of that of the other,
among what the two see. -/
def Seen.Runs (f f' : Function) : Prop :=
  ∃ Γ inner locals locals',
    seen.left.lookup f.stamp = some locals ∧
    seen.right.lookup f'.stamp = some locals' ∧
    SameLocals Γ.flatten locals locals' ∧
    Params ([] :: Γ) f.params f'.params inner ∧
    Stmt.AllRespelled r inner f.body f'.body

/-- The values are the same, or they are functions that look the same
and whose code is a respelling. -/
inductive Value.Respelled : Value → Value → Prop
  | plain {v : Value} (h : ∀ f, v ≠ .function f) : Respelled v v
  | function {f f' : Function} (hstamp : f'.stamp = f.stamp)
      (hname : f'.name = f.name) (hruns : seen.Runs r f f') :
      Respelled (.function f) (.function f')

/-- The ends of two statements. -/
inductive Completion.Respelled : Completion → Completion → Prop
  | normal : Respelled .normal .normal
  | returned {v v' : Value} (h : v.Respelled r seen v') :
      Respelled (.returned v) (.returned v')

/-- The faults look the same, or the one shows a name in the stead of the
other. -/
def RuntimeFault.Respelled (fault fault' : RuntimeFault) : Prop :=
  fault'.mapFn Function.face = fault.mapFn Function.face ∨
    fault = .undefined r.old ∧ fault' = .undefined r.new

/-- The interruptions of two runs. -/
inductive Interruption.Respelled : Interruption → Interruption → Prop
  | fault {fault fault' : RuntimeFault} {node : Option Node}
      (h : fault.Respelled r fault') :
      Respelled (.fault fault node) (.fault fault' node)
  | stackOverflow : Respelled .stackOverflow .stackOverflow
  | unfinished : Respelled .unfinished .unfinished
  | strayReturn {v v' : Value}
      (h : v'.mapFn Function.face = v.mapFn Function.face) :
      Respelled (.strayReturn v) (.strayReturn v')

end Values

variable {r : Respelling}

section Results

variable {seen seen' : Seen}

namespace Value.Respelled

variable {v v' : Value}

/-- Values that go together still do when more functions have been made: what
the old ones see is kept. -/
theorem mono (h : v.Respelled r seen v') (hgrows : seen.Grows seen') :
    v.Respelled r seen' v' := by
  cases h with
  | plain h => exact .plain h
  | function hstamp hname hruns =>
    obtain ⟨Γ, inner, locals, locals', hleft, hright, hcode⟩ := hruns
    exact .function hstamp hname ⟨Γ, inner, locals, locals',
      hgrows.left _ _ hleft, hgrows.right _ _ hright, hcode⟩

/-- What can be told of the values is the same. -/
theorem face (h : v.Respelled r seen v') :
    v'.mapFn Function.face = v.mapFn Function.face := by
  cases h with
  | plain h => rfl
  | function hstamp hname hruns =>
    obtain ⟨_, _, _, _, -, -, -, hparams, -⟩ := hruns
    rw [mapFn_function, mapFn_function, Function.face, Function.face, hstamp,
      hname, hparams.length_eq]

/-- A test does not tell such values apart. -/
theorem truthy (h : v.Respelled r seen v') : v'.truthy = v.truthy := by
  rw [← Value.truthy_mapFn v', h.face, Value.truthy_mapFn]

/-- Both can be called, or neither. -/
theorem callable (h : v.Respelled r seen v') : v'.callable = v.callable := by
  rw [← Value.callable_mapFn v', h.face, Value.callable_mapFn]

/-- They are printed alike: of a function its name is shown, and no
parameter. -/
theorem printed (h : v.Respelled r seen v') : v'.printed = v.printed := by
  rw [← v'.printed_mapFn unnoticed_face, h.face,
    v.printed_mapFn unnoticed_face]

/-- A logical operator is decided by both or by neither. -/
theorem decidedBy (h : v.Respelled r seen v') (op : LogicalOp) :
    op.decidedBy v' = op.decidedBy v := by
  rw [← op.decidedBy_mapFn v', h.face, op.decidedBy_mapFn]

/-- A native sees the same of both. -/
theorem sight (h : v.Respelled r seen v') : v'.sight = v.sight := by
  rw [← v'.sight_mapFn unnoticed_face, h.face, v.sight_mapFn unnoticed_face]

end Value.Respelled

/-- What two calls come to goes together if the ends of their bodies do. -/
theorem Completion.Respelled.value {c c' : Completion}
    (h : c.Respelled r seen c') : c.value.Respelled r seen c'.value := by
  cases h with
  | normal => exact .plain nofun
  | returned h => exact h

end Results

-- =============================================================== memories

/-- The same moment of two runs. -/
structure Sides where
  left : Memory
  right : Memory

/-- What the functions see in both. -/
abbrev Sides.seen (w : Sides) : Seen := ⟨w.left.captured, w.right.captured⟩

/-- The memories have the same things at the same places, up to the
spelling of local names. -/
structure Sides.Respelled (r : Respelling) (w : Sides) : Prop where
  cells : Forall₂ (Value.Respelled r w.seen) w.left.cells w.right.cells
  globals : Forall₂ (fun b b' => b'.1 = b.1 ∧ b.2.Respelled r w.seen b'.2)
    w.left.globals w.right.globals
  stamps : ∀ stamp, w.left.nextStamp ≤ stamp →
    w.left.captured.lookup stamp = none ∧
      w.right.captured.lookup stamp = none
  nextStamp : w.right.nextStamp = w.left.nextStamp
  output : w.right.output = w.left.output
  clock : w.right.clock = w.left.clock

section Lists

variable {α β : Type} {R : α → β → Prop} {as : List α} {bs : List β}

/-- Two lists that go together do so at each place, or the place is in
neither. -/
theorem rel_getElem? (h : Forall₂ R as bs) (i : Nat) :
    Option.Rel R as[i]? bs[i]? := by
  induction h generalizing i with
  | nil => exact .none
  | cons hab _ ih =>
    cases i with
    | zero => exact .some hab
    | succ i => exact ih i

/-- They still do when something that goes together is put at one place in
both. -/
theorem forall₂_set (h : Forall₂ R as bs) {a : α} {b : β} (hab : R a b)
    (i : Nat) : Forall₂ R (as.set i a) (bs.set i b) := by
  induction h generalizing i with
  | nil => exact .nil
  | cons hfirst hrest ih =>
    cases i with
    | zero => exact .cons hab hrest
    | succ i => exact .cons hfirst (ih i)

end Lists

section Bindings

variable {R : Value → Value → Prop} {bs bs' : Bindings} {name : String}

/-- The globals keep their names, so a name is found in both scopes or in
neither. -/
theorem rel_find? (h : Forall₂ (fun b b' => b'.1 = b.1 ∧ R b.2 b'.2) bs bs') :
    Option.Rel R (bs.find? name) (bs'.find? name) := by
  induction h with
  | nil => exact .none
  | @cons b b' _ _ hb _ ih =>
    obtain ⟨n, v⟩ := b
    obtain ⟨n', v'⟩ := b'
    obtain ⟨rfl, hv⟩ : n' = n ∧ R v v' := hb
    unfold Bindings.find?
    split
    · exact .some hv
    · exact ih

/-- A global is bound in both, at the same place of the scope. -/
theorem forall₂_put {v v' : Value} (hv : R v v')
    (h : Forall₂ (fun b b' => b'.1 = b.1 ∧ R b.2 b'.2) bs bs') :
    Forall₂ (fun b b' => b'.1 = b.1 ∧ R b.2 b'.2) (bs.put name v)
      (bs'.put name v') := by
  induction h with
  | nil => exact .cons ⟨rfl, hv⟩ .nil
  | @cons b b' _ _ hb hbs ih =>
    obtain ⟨n, old⟩ := b
    obtain ⟨n', old'⟩ := b'
    obtain ⟨rfl, hold⟩ : n' = n ∧ R old old' := hb
    unfold Bindings.put
    split
    · exact .cons ⟨rfl, hv⟩ hbs
    · exact .cons ⟨rfl, hold⟩ ih

end Bindings

-- =============================================================== together

open Run

section Together

variable {α β γ δ : Type} {w : Sides}

/-- The runs end alike, in memories that go together, and what they end
with is as the condition says. -/
def Together (r : Respelling) (w : Sides) (run : RunOn Memory α)
    (run' : RunOn Memory β) (post : Seen → α → β → Prop) : Prop :=
  match run w.left, run' w.right with
  | .ok a μ, .ok b μ' =>
      Sides.Respelled r ⟨μ, μ'⟩ ∧ w.seen.Grows (Sides.seen ⟨μ, μ'⟩) ∧
        post (Sides.seen ⟨μ, μ'⟩) a b
  | .error stop μ, .error stop' μ' =>
      stop.Respelled r stop' ∧ Sides.Respelled r ⟨μ, μ'⟩
  | _, _ => False

namespace Together

variable {run : RunOn Memory α} {run' : RunOn Memory β}
  {post : Seen → α → β → Prop}

/-- Two runs with results go together if the memories do that they leave. -/
theorem of_ok (w' : Sides) {a : α} {b : β} (h : run w.left = .ok a w'.left)
    (h' : run' w.right = .ok b w'.right) (hw : w'.Respelled r)
    (hgrows : w.seen.Grows w'.seen) (hpost : post w'.seen a b) :
    Together r w run run' post := by
  unfold Together
  rw [h, h']
  exact ⟨hw, hgrows, hpost⟩

/-- So do two runs that are interrupted where they start. -/
theorem of_error {stop stop' : Interruption}
    (h : run w.left = .error stop w.left)
    (h' : run' w.right = .error stop' w.right)
    (hstop : stop.Respelled r stop') (hw : w.Respelled r) :
    Together r w run run' post := by
  unfold Together
  rw [h, h']
  exact ⟨hstop, hw⟩

/-- Results that are there at once go together in the memories as they are. -/
theorem pure {a : α} {b : β} (hw : w.Respelled r) (hpost : post w.seen a b) :
    Together r w (pure a) (pure b) post :=
  .of_ok w rfl rfl hw (.refl _) hpost

/-- So do two faults that look the same, or that show the one name and the
other. -/
theorem raise {fault fault' : RuntimeFault} (hw : w.Respelled r)
    (h : fault.Respelled r fault') :
    Together r w (raise fault) (raise fault') post :=
  .of_error rfl rfl (.fault h) hw

/-- Runs whose first steps have led to memories from which the rest of
them goes together. -/
theorem after {rest : RunOn Memory α} {rest' : RunOn Memory β} {w' : Sides}
    (h : run w.left = rest w'.left) (h' : run' w.right = rest' w'.right)
    (hgrows : w.seen.Grows w'.seen) (hrest : Together r w' rest rest' post) :
    Together r w run run' post := by
  unfold Together at hrest ⊢
  rw [h, h']
  split at hrest
  · obtain ⟨hw, hgrows', hpost⟩ := hrest
    exact ⟨hw, hgrows.trans hgrows', hpost⟩
  · exact hrest
  · exact hrest.elim

/-- Runs one behind the other. The second runs start from memories that go
together, with whatever functions have been made by then. -/
theorem bind {next : α → RunOn Memory γ} {next' : β → RunOn Memory δ}
    {post' : Seen → γ → δ → Prop} (h : Together r w run run' post)
    (hnext : ∀ w' a b, w'.Respelled r → w.seen.Grows w'.seen →
      post w'.seen a b → Together r w' (next a) (next' b) post') :
    Together r w (run >>= next) (run' >>= next') post' := by
  unfold Together at h
  split at h
  · next a μ b μ' hrun hrun' =>
    obtain ⟨hw, hgrows, hpost⟩ := h
    refine .after ?_ ?_ hgrows (hnext ⟨μ, μ'⟩ a b hw hgrows hpost)
    · rw [bind_apply, hrun]
      exact rfl
    · rw [bind_apply, hrun']
      exact rfl
  · next stop μ stop' μ' hrun hrun' =>
    unfold Together
    rw [bind_apply, bind_apply, hrun, hrun']
    exact h
  · exact h.elim

/-- Both faults get the same node, for nodes do not differ. -/
theorem located {node : Node} (h : Together r w run run' post) :
    Together r w (located node run) (located node run') post := by
  unfold Together at h ⊢
  unfold Run.located
  split at h
  · next a μ b μ' hrun hrun' =>
    rw [hrun, hrun']
    exact h
  · next stop μ stop' μ' hrun hrun' =>
    rw [hrun, hrun']
    obtain ⟨hstop, hw⟩ := h
    cases hstop with
    | @fault _ _ place hfault =>
      cases place <;> exact ⟨.fault hfault, hw⟩
    | stackOverflow => exact ⟨.stackOverflow, hw⟩
    | unfinished => exact ⟨.unfinished, hw⟩
    | strayReturn hv => exact ⟨.strayReturn hv, hw⟩
  · exact h.elim

/-- The results of an operation, where they are no functions. -/
theorem ofExcept {outcome outcome' : Except RuntimeFault Value}
    (hw : w.Respelled r) (hplain : ∀ f, outcome ≠ .ok (.function f))
    (hplain' : ∀ f, outcome' ≠ .ok (.function f))
    (hface : mapOutcome Function.face outcome'
      = mapOutcome Function.face outcome) :
    Together r w (ofExcept outcome) (ofExcept outcome')
      (Value.Respelled r) := by
  cases outcome with
  | error fault =>
    cases outcome' with
    | ok v' => cases hface
    | error fault' =>
      injection hface with hface
      exact .raise hw (.inl hface)
  | ok v =>
    cases outcome' with
    | error fault' => cases hface
    | ok v' =>
      injection hface with hface
      -- A value that is no function is its own face.
      have hself : ∀ u : Value, (∀ f, u ≠ .function f) →
          u.mapFn Function.face = u := by
        intro u hu
        cases u with
        | function f => exact absurd rfl (hu f)
        | _ => rfl
      have hv : ∀ f, v ≠ .function f := fun f hf => hplain f (hf ▸ rfl)
      have hv' : ∀ f, v' ≠ .function f := fun f hf => hplain' f (hf ▸ rfl)
      rw [hself v hv, hself v' hv'] at hface
      subst hface
      exact .pure hw (.plain hv)

/-- A loop: the test and the body go together from whatever memories the
rounds before have led to. -/
theorem repeatWhile {test test' : RunOn Memory Bool}
    {body body' : RunOn Memory Completion}
    (htest : ∀ w', w'.Respelled r → w.seen.Grows w'.seen →
      Together r w' test test' fun _ a b => b = a)
    (hbody : ∀ w', w'.Respelled r → w.seen.Grows w'.seen →
      Together r w' body body' (Completion.Respelled r))
    (rounds : Nat) : ∀ w', w'.Respelled r → w.seen.Grows w'.seen →
      Together r w' (repeatWhile test body rounds)
        (repeatWhile test' body' rounds) (Completion.Respelled r) := by
  induction rounds with
  | zero => exact fun w' hw' _ => .of_error rfl rfl .unfinished hw'
  | succ rounds ih =>
    intro w' hw' hgrows
    refine (htest w' hw' hgrows).bind fun w₁ _ again hw₁ hgrows₁ hab => ?_
    subst hab
    cases again with
    | false => exact .pure hw₁ .normal
    | true =>
      refine (hbody w₁ hw₁ (hgrows.trans hgrows₁)).bind
        fun w₂ c c' hw₂ hgrows₂ hc => ?_
      cases hc with
      | normal => exact ih w₂ hw₂ ((hgrows.trans hgrows₁).trans hgrows₂)
      | returned hv => exact .pure hw₂ (.returned hv)

end Together

end Together

-- ================================================================== views

/-- Where a statement stands, two views show the same locations. -/
structure SameView (Γ : NamePairs) (view view' : View) : Prop where
  locals : SameLocals Γ.flatten view.locals view'.locals
  nested : view.nested = !Γ.isEmpty
  nested' : view'.nested = !Γ.isEmpty
  pending : view.pending = none
  pending' : view'.pending = none

/-- The same where an expression stands, which may be in an initializer:
then the names declared last have no location yet. -/
inductive SameViewInside : NamePairs → View → View → Prop
  | settled {Γ : NamePairs} {view view' : View} (h : SameView Γ view view') :
      SameViewInside Γ view view'
  | initializing {scope : List (String × String)} {outer : NamePairs}
      {view view' : View} {a a' : String}
      (h : SameView (scope :: outer) view view') :
      SameViewInside (((a, a') :: scope) :: outer) { view with pending := a }
        { view' with pending := a' }

variable {Γ : NamePairs} {view view' : View} {w : Sides}

/-- What is seen in the initializers of two variables. -/
theorem SameView.initializing (h : SameView Γ view view')
    (name name' : String) :
    SameViewInside (Γ.add name name') (view.initializing name)
      (view'.initializing name') := by
  have hview := h
  obtain ⟨-, hnested, hnested', hpending, hpending'⟩ := h
  cases Γ with
  | nil =>
    have hinit : ∀ {v : View} {n : String}, v.nested = false →
        v.pending = none → v.initializing n = v := by
      rintro ⟨_, _, _⟩ n rfl rfl
      rfl
    rw [hinit hnested hpending, hinit hnested' hpending']
    exact .settled hview
  | cons scope outer =>
    have hinit : ∀ {v : View} {n : String}, v.nested = true →
        v.initializing n = { v with pending := n } := by
      intro v n hv
      rw [View.initializing, hv]
      rfl
    rw [hinit hnested, hinit hnested']
    exact .initializing hview

/-- A scope that is entered is empty in both. -/
theorem SameView.inside (h : SameView Γ view view') :
    SameView ([] :: Γ) view.inside view'.inside :=
  ⟨h.locals, rfl, rfl, h.pending, h.pending'⟩

/-- What is seen behind two declarations that got the same location. -/
theorem SameView.bind (h : SameView Γ view view') (name name' : String)
    (location : Nat) :
    SameView (Γ.add name name') (view.bind name location)
      (view'.bind name' location) := by
  unfold View.bind
  cases Γ with
  | nil =>
    rw [if_neg (by simp [h.nested]), if_neg (by simp [h.nested'])]
    exact h
  | cons scope outer =>
    have hnested : view.nested = true := h.nested
    have hnested' : view'.nested = true := h.nested'
    rw [if_pos hnested, if_pos hnested']
    exact ⟨.cons h.locals, h.nested, h.nested', h.pending, h.pending'⟩

-- =================================================================== uses

/-- Where names with the same meaning lead in two memories: to the same
location, or to the same global, or to no value. -/
theorem Sides.Respelled.find (hw : w.Respelled r)
    (hsees : SameViewInside Γ view view') {name name' : String}
    (huse : Γ.Use r name name') :
    (∃ location v v', w.left.find view name = .ok (location, v) ∧
      w.right.find view' name' = .ok (location, v') ∧
      v.Respelled r w.seen v' ∧ (location = none → name' = name)) ∨
    w.left.find view name = .error (.undefined name) ∧
      w.right.find view' name' = .error (.undefined name') := by
  have hfound : ∀ {pairs locals locals'}, SameLocals pairs locals locals' →
      SameMeaning pairs name name' →
      locals'.lookup name' = locals.lookup name ∧
        (locals.lookup name = none → name' = name) ∧
        Option.Rel (Value.Respelled r w.seen)
          ((locals.lookup name).elim (w.left.globals.find? name)
            (w.left.cells[·]?))
          ((locals.lookup name).elim (w.right.globals.find? name')
            (w.right.cells[·]?)) := by
    intro pairs locals locals' hlocals hsame
    obtain ⟨hlookup, hglobal⟩ := hlocals.lookup hsame
    refine ⟨hlookup, hglobal, ?_⟩
    cases hlocation : locals.lookup name with
    | none =>
      rw [hglobal hlocation]
      exact rel_find? hw.globals
    | some location => exact rel_getElem? hw.cells location
  -- Both are pending, or neither is and they have the same meaning.
  have hcases : view.pending = some name ∧ view'.pending = some name' ∨
      view.pending ≠ some name ∧ view'.pending ≠ some name' ∧
        ∃ pairs, SameLocals pairs view.locals view'.locals ∧
          SameMeaning pairs name name' := by
    cases hsees with
    | settled h =>
      rw [h.pending, h.pending']
      exact .inr ⟨nofun, nofun, _, h.locals, huse.meaning⟩
    | initializing h =>
      rcases huse.meaning with ⟨rfl, rfl⟩ | ⟨hne, hne', hsame⟩
      · exact .inl ⟨rfl, rfl⟩
      · exact .inr ⟨fun heq => hne (Option.some.inj heq),
          fun heq => hne' (Option.some.inj heq), _, h.locals, hsame⟩
  rcases hcases with ⟨hp, hp'⟩ | ⟨hp, hp', pairs, hlocals, hsame⟩
  · exact .inr ⟨w.left.find_of_pending hp, w.right.find_of_pending hp'⟩
  · obtain ⟨hlookup, hglobal, hrel⟩ := hfound hlocals hsame
    rw [w.left.find_of_not_pending hp, w.right.find_of_not_pending hp', hlookup]
    revert hrel
    generalize (view.locals.lookup name).elim (w.left.globals.find? name)
      (w.left.cells[·]?) = found
    generalize (view.locals.lookup name).elim (w.right.globals.find? name')
      (w.right.cells[·]?) = found'
    intro hrel
    cases hrel with
    | none => exact .inr ⟨rfl, rfl⟩
    | some hv => exact .inl ⟨_, _, _, rfl, rfl, hv, hglobal⟩

/-- To store values that go together at the same location, or in the
same global. -/
theorem Sides.Respelled.store (hw : w.Respelled r) {location : Option Nat}
    {name name' : String} (hname : location = none → name' = name)
    {v v' : Value} (hv : v.Respelled r w.seen v') :
    Sides.Respelled r ⟨w.left.store location name v,
      w.right.store location name' v'⟩ := by
  cases location with
  | some location =>
    exact { hw with cells := forall₂_set hw.cells hv location }
  | none =>
    obtain rfl := hname rfl
    exact { hw with globals := forall₂_put hv hw.globals }

/-- A use that meets no value shows its name. -/
theorem RuntimeFault.Respelled.undefined {name name' : String}
    (h : r.Allows name name') :
    RuntimeFault.Respelled r (.undefined name) (.undefined name') := by
  rcases h with rfl | ⟨rfl, rfl⟩
  · exact .inl rfl
  · exact .inr ⟨rfl, rfl⟩

/-- A use that meets no value interrupts both runs. -/
theorem undefined_respelled {name name' : String}
    (h : r.Allows name name') :
    Interruption.Respelled r (.fault (.undefined name) none)
      (.fault (.undefined name') none) :=
  .fault (.undefined h)

/-- Two uses with the same meaning find the same location. In the initializer
of its own variable a use fails, and there the one name shows in place of the
other. -/
theorem readName_together (hw : w.Respelled r)
    (hsees : SameViewInside Γ view view') {name name' : String}
    (huse : Γ.Use r name name') :
    Together r w (Lexical.readName view name) (Lexical.readName view' name')
      (Value.Respelled r) := by
  have hrun := Lexical.readName_apply view name w.left
  have hrun' := Lexical.readName_apply view' name' w.right
  rcases hw.find hsees huse with
    ⟨location, v, v', hfind, hfind', hv, -⟩ | ⟨hfind, hfind'⟩
  · rw [hfind] at hrun
    rw [hfind'] at hrun'
    exact .of_ok w hrun hrun' hw (.refl _) hv
  · rw [hfind] at hrun
    rw [hfind'] at hrun'
    exact .of_error hrun hrun' (undefined_respelled huse.allowed) hw

/-- Two assignments with the same meaning change the same location, or the
global of that name. -/
theorem writeName_together (hw : w.Respelled r)
    (hsees : SameViewInside Γ view view') {name name' : String}
    (huse : Γ.Use r name name') {v v' : Value}
    (hv : v.Respelled r w.seen v') :
    Together r w (Lexical.writeName view name v)
      (Lexical.writeName view' name' v') fun _ _ _ => True := by
  have hrun := Lexical.writeName_apply view name v w.left
  have hrun' := Lexical.writeName_apply view' name' v' w.right
  rcases hw.find hsees huse with
    ⟨location, old, old', hfind, hfind', -, hglobal⟩ | ⟨hfind, hfind'⟩
  · rw [hfind] at hrun
    rw [hfind'] at hrun'
    refine .of_ok ⟨_, _⟩ hrun hrun' (hw.store hglobal hv) ?_ trivial
    cases location <;> exact .refl _
  · rw [hfind] at hrun
    rw [hfind'] at hrun'
    exact .of_error hrun hrun' (undefined_respelled huse.allowed) hw

-- =========================================================== declarations

/-- Two declarations, of local names or of the same global. -/
theorem declare_together (hw : w.Respelled r) (hsees : SameView Γ view view')
    {name name' : String} (hname : Γ.Declares name name') {v v' : Value}
    (hv : v.Respelled r w.seen v') :
    Together r w (Lexical.declare view name v)
      (Lexical.declare view' name' v')
      fun _ => SameView (Γ.add name name') := by
  have hlength : w.right.cells.length = w.left.cells.length :=
    hw.cells.length_eq.symm
  have hview : SameView (Γ.add name name')
      (view.bind name w.left.cells.length)
      (view'.bind name' w.right.cells.length) := by
    rw [hlength]
    exact hsees.bind name name' _
  refine .of_ok ⟨w.left.declare view name v, w.right.declare view' name' v'⟩
    rfl rfl ?_ ?_ hview
  · unfold Memory.declare
    rw [hsees.nested, hsees.nested']
    -- At the top level the declaration is that of a global, which keeps its
    -- name.
    cases Γ with
    | nil =>
      obtain rfl : name' = name := hname
      exact { hw with globals := forall₂_put hv hw.globals }
    | cons scope outer =>
      exact { hw with
        cells := List.rel_append hw.cells (.cons hv .nil) }
  · unfold Memory.declare
    rw [hsees.nested, hsees.nested']
    cases Γ <;> exact .refl _

/-- The parameters of two functions, with the values they get. -/
theorem declareAll_together {inner : NamePairs} {params params' : List String}
    (hparams : Params Γ params params' inner) {args args' : List Value} :
    ∀ {w : Sides} {view view' : View}, w.Respelled r → SameView Γ view view' →
      Forall₂ (Value.Respelled r w.seen) args args' →
      args.length = params.length →
      Together r w (Lexical.declareAll view (params.zip args))
        (Lexical.declareAll view' (params'.zip args'))
        fun _ => SameView inner := by
  induction hparams generalizing args args' with
  | nil =>
    intro w view view' hw hsees _ _
    rw [List.zip_nil_left, List.zip_nil_left]
    exact .pure hw hsees
  | cons hname _ ih =>
    intro w view view' hw hsees hargs harity
    cases hargs with
    | nil => cases harity
    | cons hv hargs =>
      rw [List.zip_cons_cons, List.zip_cons_cons]
      refine (declare_together hw hsees hname hv).bind
        fun w₁ _ _ hw₁ hgrows₁ hsees₁ => ?_
      exact ih hw₁ hsees₁ (hargs.imp fun _ _ h => h.mono hgrows₁)
        (Nat.succ.inj harity)

/-- The next stamp is taken in both, for functions that see these
names. -/
def Sides.capture (w : Sides) (seen seen' : Locals) : Sides :=
  ⟨w.left.capture seen, w.right.capture seen'⟩

/-- A function that is made sees more than those before, and they keep what
they see. -/
theorem Sides.Respelled.capture_grows (hw : w.Respelled r)
    (seen seen' : Locals) : w.seen.Grows (w.capture seen seen').seen := by
  have hfresh := hw.stamps w.left.nextStamp (Nat.le_refl _)
  refine ⟨fun _ _ => Memory.lookup_capture_of_lookup hfresh.1 seen,
    fun _ _ => Memory.lookup_capture_of_lookup ?_ seen'⟩
  rw [hw.nextStamp]
  exact hfresh.2

/-- Memories still go together when a function is made in both: it gets the
same stamp, which no function had. -/
theorem Sides.Respelled.capture (hw : w.Respelled r) (seen seen' : Locals) :
    (w.capture seen seen').Respelled r := by
  have hgrows := hw.capture_grows seen seen'
  refine {
    cells := hw.cells.imp fun _ _ h => h.mono hgrows
    globals := hw.globals.imp fun _ _ h => ⟨h.1, h.2.mono hgrows⟩
    stamps := fun stamp hle => ?_
    nextStamp := congrArg (· + 1) hw.nextStamp
    output := hw.output
    clock := hw.clock }
  have hlt : w.left.nextStamp < stamp := hle
  have hne : stamp ≠ w.left.nextStamp := Nat.ne_of_gt hlt
  have hne' : stamp ≠ w.right.nextStamp := by rwa [hw.nextStamp]
  show (w.left.capture seen).captured.lookup stamp = none ∧
    (w.right.capture seen').captured.lookup stamp = none
  rw [Memory.lookup_capture_of_ne hne, Memory.lookup_capture_of_ne hne']
  exact hw.stamps stamp (Nat.le_of_lt hlt)

/-- Two functions are made and declared, which see what is around their
declarations and themselves. -/
theorem declareFunction_together {inner : NamePairs} (hw : w.Respelled r)
    (hsees : SameView Γ view view') {name : String}
    (hname : Γ.Declares name name) {params params' : List String}
    (hparams : Params ([] :: Γ.add name name) params params' inner)
    {body body' : List Stmt} (hbody : Stmt.AllRespelled r inner body body') :
    Together r w (Lexical.declareFunction view name params body)
      (Lexical.declareFunction view' name params' body') fun _ =>
        SameView (Γ.add name name) := by
  let seen := (view.bind name w.left.cells.length).locals
  let seen' := (view'.bind name w.right.cells.length).locals
  have hlocals : SameLocals (Γ.add name name).flatten seen seen' := by
    have hlength : w.right.cells.length = w.left.cells.length :=
      hw.cells.length_eq.symm
    show SameLocals _ seen (view'.bind name w.right.cells.length).locals
    rw [hlength]
    exact (hsees.bind name name _).locals
  have hfunction : Value.Respelled r (w.capture seen seen').seen
      (.function ⟨w.left.nextStamp, name, params, body, .globals⟩)
      (.function ⟨w.right.nextStamp, name, params', body', .globals⟩) :=
    .function hw.nextStamp rfl
      ⟨Γ.add name name, inner, seen, seen', w.left.lookup_capture_self seen,
        w.right.lookup_capture_self seen', hlocals, hparams, hbody⟩
  exact .after (Lexical.declareFunction_apply ..)
    (Lexical.declareFunction_apply ..) (hw.capture_grows seen seen')
    (declare_together (hw.capture seen seen') hsees hname hfunction)

end Lox
