/-
What can be told of a function. No operator, no test, no message and no
native looks further into a function than its stamp, its name and how
many parameters it has, so to change the rest of every function changes
nothing but the functions in the result: `mapFn g` replaces the functions
of a value by `g`, and the operators commute with it.
-/
import Lox.Session
import Lox.Proofs.Tree.Nodes

namespace Lox

-- =========================================================== replacement

section Replacement

variable (g : Function → Function)

/-- The value with another function in place of a function. -/
def Value.mapFn : Value → Value
  | function f => function (g f)
  | v => v

/-- The fault with other functions. -/
def RuntimeFault.mapFn : RuntimeFault → RuntimeFault
  | notNumber found => notNumber (found.mapFn g)
  | notString found => notString (found.mapFn g)
  | notNumberOrString found => notNumberOrString (found.mapFn g)
  | notCallable found => notCallable (found.mapFn g)
  | fault => fault

/-- The result of an operation with other functions. -/
def mapOutcome : Except RuntimeFault Value → Except RuntimeFault Value
  | .ok v => .ok (v.mapFn g)
  | .error fault => .error (fault.mapFn g)

/-- The end of a statement with other functions. -/
def Completion.mapFn : Completion → Completion
  | normal => normal
  | returned v => returned (v.mapFn g)

/-- The interruption with other functions and another node. -/
def Interruption.mapFn (h : Node → Node) : Interruption → Interruption
  | fault f node => fault (f.mapFn g) (node.map h)
  | strayReturn v => strayReturn (v.mapFn g)
  | stop => stop

/-- The failure with other functions and another node. -/
def Failure.mapFn (h : Node → Node) : Failure → Failure
  | runtime e => runtime ⟨e.fault.mapFn g, e.node.map h⟩
  | strayReturn v => strayReturn (v.mapFn g)
  | failure => failure

/-- The place of the node that met a fault. -/
def Failure.pos : Failure → Option Position
  | runtime e => e.pos
  | _ => none

/-- The report with other functions and another node. -/
def Report.mapFn (h : Node → Node) (r : Report) : Report :=
  { r with failure := r.failure.map (·.mapFn g h) }

/-- What is seen of a report: what was printed, the wording of the
failure and its place. -/
def Report.shown (r : Report) :
    String × Option (List String × Option Position) :=
  (r.output, r.failure.map fun failure => (failure.messages, failure.pos))

/-- The bindings with other functions. -/
def Bindings.mapFn (bs : Bindings) : Bindings :=
  bs.map fun b => (b.1, b.2.mapFn g)

/-- What is seen of bindings: the names, and each value as a diagnostic
shows it. -/
def Bindings.shown (bs : Bindings) : List (String × String) :=
  bs.map fun b => (b.1, b.2.quoted)

end Replacement

/-- A replacement of functions that is not noticed. -/
structure Unnoticed (g : Function → Function) : Prop where
  stamp : ∀ f, (g f).stamp = f.stamp
  name : ∀ f, (g f).name = f.name
  arity : ∀ f, (g f).params.length = f.params.length

variable {g : Function → Function}

-- ================================================================ values

namespace Value

@[simp] theorem mapFn_nil : nil.mapFn g = nil := rfl

@[simp] theorem mapFn_bool (b : Bool) : (bool b).mapFn g = bool b := rfl

@[simp] theorem mapFn_number (x : Float) :
    (number x).mapFn g = number x := rfl

@[simp] theorem mapFn_string (s : String) :
    (string s).mapFn g = string s := rfl

@[simp] theorem mapFn_function (f : Function) :
    (function f).mapFn g = function (g f) := rfl

@[simp] theorem mapFn_native (n : Native) :
    (native n).mapFn g = native n := rfl

@[simp] theorem truthy_mapFn (v : Value) :
    (v.mapFn g).truthy = v.truthy := by
  cases v <;> rfl

@[simp] theorem callable_mapFn (v : Value) :
    (v.mapFn g).callable = v.callable := by
  cases v <;> rfl

/-- A function is no number, before and after. -/
@[simp] theorem toNumber_mapFn (v : Value) :
    (v.mapFn g).toNumber = v.toNumber.mapError (·.mapFn g) := by
  cases v <;> rfl

/-- A function is shown by its name, which it keeps. -/
theorem quoted_mapFn (v : Value) (hg : Unnoticed g) :
    (v.mapFn g).quoted = v.quoted := by
  cases v with
  | function f => simp [quoted, hg.name]
  | _ => rfl

/-- The same where it is printed. -/
theorem printed_mapFn (v : Value) (hg : Unnoticed g) :
    (v.mapFn g).printed = v.printed := by
  cases v with
  | function f => simp [printed, quoted, hg.name]
  | _ => rfl

/-- Two functions are equal by their stamps, which they keep. -/
theorem equals_mapFn (hg : Unnoticed g) (a b : Value) :
    (a.mapFn g).equals (b.mapFn g) = a.equals b := by
  cases a <;> cases b <;> simp [equals, hg.stamp]

/-- A native sees the same. -/
theorem sight_mapFn (v : Value) (hg : Unnoticed g) :
    (v.mapFn g).sight = v.sight := by
  cases v with
  | function f =>
    have hquoted := (function f).quoted_mapFn hg
    rw [mapFn_function] at hquoted ⊢
    rw [sight, sight, hg.stamp, hg.arity, hquoted]
  | _ => rfl

/-- A native sees the same of its arguments. -/
theorem sights_mapFn (vs : List Value) (hg : Unnoticed g) :
    (vs.map (·.mapFn g)).map sight = vs.map sight := by
  rw [List.map_map]
  exact List.map_congr_left fun v _ => v.sight_mapFn hg

end Value

/-- No literal is a function. -/
theorem Literal.value_mapFn (value : Literal) :
    value.value.mapFn g = value.value := by
  cases value <;> simp [Literal.value]

/-- Nor is any value that a native makes. -/
theorem Plain.value_mapFn (p : Plain) : p.value.mapFn g = p.value := by
  cases p <;> rfl

/-- A native hands on what is at the same place. -/
theorem Handed.value_mapFn (v : Handed) (hand : List Value) :
    v.value (hand.map (·.mapFn g)) = (v.value hand).mapFn g := by
  cases v with
  | own p => exact p.value_mapFn.symm
  | held place =>
    rw [value, value, List.getD_eq_getElem?_getD, List.getD_eq_getElem?_getD,
      List.getElem?_map]
    cases hand[place]? <;> rfl

/-- What a native hands on are its own values or those in its hand, so
replaced functions in the hand are replaced in what is handed on. -/
theorem Handed.values_mapFn (vs : List Handed) (hand : List Value) :
    vs.map (·.value (hand.map (·.mapFn g)))
      = (vs.map (·.value hand)).map (·.mapFn g) := by
  rw [List.map_map]
  exact List.map_congr_left fun v _ => v.value_mapFn hand

/-- A fault shows its values, and so it is worded the same. -/
theorem RuntimeFault.message_mapFn (hg : Unnoticed g)
    (fault : RuntimeFault) : (fault.mapFn g).message = fault.message := by
  cases fault with
  | notNumber found =>
    exact congrArg ("Expected number, found " ++ ·) (found.quoted_mapFn hg)
  | notString found =>
    exact congrArg ("Expected string, found " ++ ·) (found.quoted_mapFn hg)
  | notNumberOrString found =>
    exact congrArg ("Expected number or string, found " ++ ·)
      (found.quoted_mapFn hg)
  | notCallable found =>
    exact congrArg ("Attempted to call uncallable value " ++ ·)
      (found.quoted_mapFn hg)
  | _ => exact congrArg message rfl

/-- It does not matter whether functions are replaced before or after an
interruption becomes a failure. -/
theorem Failure.ofInterruption_mapFn (h : Node → Node)
    (stop : Interruption) :
    ofInterruption (stop.mapFn g h) = (ofInterruption stop).mapFn g h := by
  cases stop <;> rfl

/-- A failure is worded alike, if its node keeps its place. -/
theorem Failure.messages_mapFn (hg : Unnoticed g) {h : Node → Node}
    (hh : KeepsPlaces h) (failure : Failure) :
    (failure.mapFn g h).messages = failure.messages := by
  cases failure with
  | runtime e =>
    simp [mapFn, messages, RuntimeError.message, RuntimeError.pos,
      RuntimeFault.message_mapFn hg, Function.comp_def, hh _]
  | strayReturn v => simp [mapFn, messages, v.quoted_mapFn hg]
  | _ => rfl

/-- A report looks alike, if the node keeps its place. -/
theorem Report.shown_of_keepsPlaces (hg : Unnoticed g) {h : Node → Node}
    (hh : KeepsPlaces h) (r : Report) : (r.mapFn g h).shown = r.shown := by
  obtain ⟨output, _ | failure⟩ := r
  · rfl
  · have hpos : (failure.mapFn g h).pos = failure.pos := by
      cases failure with
      | runtime e =>
        simp [Failure.mapFn, Failure.pos, RuntimeError.pos,
          Function.comp_def, hh _]
      | _ => rfl
    simp [mapFn, shown, failure.messages_mapFn hg hh, hpos]

/-- A report looks alike. -/
theorem Report.shown_mapFn (hg : Unnoticed g) (r : Report) :
    (r.mapFn g id).shown = r.shown :=
  r.shown_of_keepsPlaces hg fun _ => rfl

-- ----------------------------------------------- one after the other

section Twice

variable {g' : Function → Function} {h h' : Node → Node}

/-- To replace functions twice is to replace them once, by both. -/
theorem Value.mapFn_mapFn (v : Value) :
    (v.mapFn g).mapFn g' = v.mapFn (g' ∘ g) := by
  cases v <;> rfl

/-- The same in a fault. -/
theorem RuntimeFault.mapFn_mapFn (fault : RuntimeFault) :
    (fault.mapFn g).mapFn g' = fault.mapFn (g' ∘ g) := by
  cases fault <;> simp [mapFn, Value.mapFn_mapFn]

/-- The same in a failure, whose node is replaced twice too. -/
theorem Failure.mapFn_mapFn (failure : Failure) :
    (failure.mapFn g h).mapFn g' h' = failure.mapFn (g' ∘ g) (h' ∘ h) := by
  cases failure <;>
    simp [mapFn, Value.mapFn_mapFn, RuntimeFault.mapFn_mapFn]

/-- The same in a report. -/
theorem Report.mapFn_mapFn (r : Report) :
    (r.mapFn g h).mapFn g' h' = r.mapFn (g' ∘ g) (h' ∘ h) := by
  simp [mapFn, Function.comp_def, Failure.mapFn_mapFn]

/-- The same in the bindings of a scope. -/
theorem Bindings.mapFn_mapFn (bs : Bindings) :
    (bs.mapFn g).mapFn g' = bs.mapFn (g' ∘ g) := by
  simp [mapFn, Value.mapFn_mapFn]

end Twice

/-- What a call comes to is what its body returned, with the functions
replaced. -/
theorem Completion.value_mapFn (completion : Completion) :
    (completion.mapFn g).value = completion.value.mapFn g := by
  cases completion <;> rfl

-- ============================================================= operators

/-- Whether the first operand decides depends on its truth alone, and
functions are all true. -/
theorem LogicalOp.decidedBy_mapFn (op : LogicalOp) (v : Value) :
    op.decidedBy (v.mapFn g) = op.decidedBy v := by
  cases op <;> simp [decidedBy]

/-- An operator does the same to a function, which is to refuse it or to call
it true. -/
theorem UnaryOp.apply_mapFn (op : UnaryOp) (v : Value) :
    op.apply (v.mapFn g) = mapOutcome g (op.apply v) := by
  cases op with
  | negate => cases v <;> rfl
  | not => simp [apply, mapOutcome, pure, Except.pure]

/-- An operator does the same to functions: it compares them or refuses
them. -/
theorem BinaryOp.apply_mapFn (hg : Unnoticed g) (op : BinaryOp)
    (a b : Value) :
    op.apply (a.mapFn g) (b.mapFn g) = mapOutcome g (op.apply a b) := by
  cases op with
  | equal | notEqual =>
    simp [apply, Value.equals_mapFn hg, mapOutcome]
  | divide =>
    cases a with
    | number x =>
      cases b with
      | number y =>
        show Value.quotient _ _ = mapOutcome g (Value.quotient _ _)
        by_cases h : (y == 0) = true <;>
          simp [Value.quotient, Value.toNumber, bind, Except.bind, pure,
            Except.pure, mapOutcome, h, RuntimeFault.mapFn]
      | _ => rfl
    | _ => rfl
  | _ => cases a <;> cases b <;> rfl

-- ============================================================== bindings

namespace Bindings

/-- A name is bound to the same value, with the functions replaced. -/
theorem find?_mapFn (bs : Bindings) (name : String) :
    (bs.mapFn g).find? name = (bs.find? name).map (·.mapFn g) := by
  induction bs with
  | nil => rfl
  | cons b bs ih =>
    obtain ⟨n, v⟩ := b
    by_cases h : n = name
    · simp [mapFn, find?, h]
    · simpa [mapFn, find?, h] using ih

/-- Bindings look alike. -/
theorem shown_mapFn (hg : Unnoticed g) (bs : Bindings) :
    (bs.mapFn g).shown = bs.shown := by
  simp [mapFn, shown, Value.quoted_mapFn _ hg]

/-- A value is bound with its functions replaced as those of the others
are. -/
theorem put_mapFn (bs : Bindings) (name : String) (v : Value) :
    put name (v.mapFn g) (bs.mapFn g) = (put name v bs).mapFn g := by
  induction bs with
  | nil => rfl
  | cons b bs ih =>
    obtain ⟨n, old⟩ := b
    by_cases h : n = name
    · simp [mapFn, put, h]
    · simpa [mapFn, put, h] using ih

/-- The order by names does not depend on the values. -/
theorem sorted_mapFn (bs : Bindings) :
    (bs.mapFn g).sorted = bs.sorted.mapFn g := by
  unfold mapFn sorted
  symm
  apply List.map_mergeSort
  intro _ _ _ _
  rfl

end Bindings

end Lox
