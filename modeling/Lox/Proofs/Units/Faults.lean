/-
Where the faults of a program are. The place that a runtime fault is
reported at is that of the node whose own step raised it, however deep
in calls that was, and in the text of the program stands there what the
fault is about: the name that is not bound, the operator whose operand
is wrong, the parenthesis of the call. Nothing else can be wrong at run
time: the table never leads beyond the chain of scopes.
-/
import Lox.Proofs.Reading.Places
import Lox.Proofs.Run.Discipline
import Lox.Proofs.Run.Raised
import Lox.Proofs.Scoping.Found

namespace Lox

open Run

-- ================================================================ pointing

/-- The text begins with what the fault is about. -/
def RuntimeFault.PointsAt (text : List Char) : RuntimeFault → Prop
  | undefined name => BeginsWithName text name
  | divisionByZero => ['/'] <+: text
  | notString _ | notNumberOrString _ => ['+'] <+: text
  | notNumber _ => ∃ sign ∈ ["+", "-", "*", "/", "<", "<=", ">", ">="],
      sign.toList <+: text
  | wrongArity _ _ | notCallable _ => ['('] <+: text
  | depthBeyondChain _ | unknownOperator _ => False

section Operators

variable {text : List Char} {fault : RuntimeFault}

theorem UnaryOp.pointsAt {op : UnaryOp} {v : Value}
    (h : op.apply v = .error fault)
    (htext : op.kind.spelling.toList <+: text) :
    fault.PointsAt text := by
  cases op with
  | negate =>
    cases v with
    | number x => cases h
    | _ =>
      cases h
      exact ⟨"-", by simp, htext⟩
  | not => cases h

theorem Value.toNumber_eq_error {v : Value} (h : v.toNumber = .error fault) :
    fault = .notNumber v := by
  cases v <;> cases h <;> rfl

/-- An operation on two numbers has no other fault than an operand that
is no number. -/
theorem Value.toNumbers_eq_error {α : Type} {a b : Value}
    {f : Float → Float → Except RuntimeFault α}
    (h : (do f (← a.toNumber) (← b.toNumber)) = .error fault) :
    (∃ v, fault = .notNumber v) ∨ ∃ x y, f x y = .error fault := by
  cases ha : a.toNumber with
  | error fault' =>
    rw [ha] at h
    cases h
    exact .inl ⟨a, toNumber_eq_error ha⟩
  | ok x =>
    cases hb : b.toNumber with
    | error fault' =>
      rw [ha, hb] at h
      cases h
      exact .inl ⟨b, toNumber_eq_error hb⟩
    | ok y =>
      rw [ha, hb] at h
      exact .inr ⟨x, y, h⟩

theorem BinaryOp.pointsAt {op : BinaryOp} {a b : Value}
    (h : op.apply a b = .error fault)
    (htext : op.kind.spelling.toList <+: text) : fault.PointsAt text := by
  cases op with
  | equal | notEqual => cases h
  | add =>
    have hplus : ∃ sign ∈ ["+", "-", "*", "/", "<", "<=", ">", ">="],
        sign.toList <+: text := ⟨"+", by simp, htext⟩
    cases a <;> cases b <;> cases h <;> first | exact hplus | exact htext
  | divide =>
    rcases Value.toNumbers_eq_error h with ⟨v, rfl⟩ | ⟨x, y, h⟩
    · exact ⟨"/", by simp, htext⟩
    · split at h <;> cases h
      exact htext
  | subtract | multiply | greater | greaterEqual | less | lessEqual =>
    rcases Value.toNumbers_eq_error h with ⟨v, rfl⟩ | ⟨x, y, h⟩
    · exact ⟨_, by simp [kind, TokenKind.spelling], htext⟩
    · cases h

/-- What refuses a call is about the call, however many natives have
handed it on. -/
theorem Moment.Refuses.pointsAt {setting : Setting} {t : Moment}
    (h : t.Refuses setting fault) (htext : ['('] <+: text) :
    fault.PointsAt text := by
  induction h with
  | parameters | arity | uncallable => exact htext
  | ofHost _ _ _ ih => exact ih

end Operators

-- ================================================================ moments

section Moments

variable {depths : Depths} {limit rounds : Nat} {t : Moment}

/-- A use without an entry in the table has no other fault than that the
global is not bound. -/
theorem find_global_eq_error {store : Store} {env : Env} {id : Nat}
    {name : String} {fault : RuntimeFault} (hentry : depths[id]? = none)
    (h : (Access.byDepth depths).find store env id name = .error fault) :
    fault = .undefined name := by
  rw [Access.find_byDepth_of_none hentry] at h
  exact Store.findIn_eq_error h

/-- A variable that cannot be read is not bound. -/
theorem Scoping.Sound.fault_of_read
    (hsound : Sound (tableOf depths) limit t) {node : Node} {name : String}
    (htask : t.task = .evaluate (.var node name)) {fault : RuntimeFault}
    (h : (Access.byDepth depths).find t.machine.store t.machine.env node.id
      name = .error fault) : fault = .undefined name := by
  cases hentry : depths[node.id]? with
  | none => exact find_global_eq_error hentry h
  | some depth =>
    obtain ⟨-, v, hread⟩ := hsound.reads htask hentry
    rw [readName_apply, h] at hread
    cases hread

/-- A variable that cannot be assigned is not bound. -/
theorem Scoping.Sound.fault_of_write
    (hsound : Sound (tableOf depths) limit t) {node : Node} {name : String}
    {v : Value} (htask : t.task = .store node name v) {fault : RuntimeFault}
    (h : (Access.byDepth depths).find t.machine.store t.machine.env node.id
      name = .error fault) : fault = .undefined name := by
  cases hentry : depths[node.id]? with
  | none => exact find_global_eq_error hentry h
  | some depth =>
    obtain ⟨hother, hown⟩ := hsound.writes htask hentry
    by_cases hname : t.initializing = some name
    · obtain ⟨-, -, hwrite⟩ := hown hname
      rw [writeName_apply, h] at hwrite
      cases hwrite
      rfl
    · obtain ⟨-, m, hwrite⟩ := hother hname
      rw [writeName_apply, h] at hwrite
      cases hwrite

/-- What a moment raises is about what stands in the text at the place
of the node. -/
theorem Moment.Raises.pointsAt {source : String}
    (hsound : Scoping.Sound (Scoping.tableOf depths) limit t)
    (hstands : (Discipline.throughout (·.StandsIn source)).Holds () t)
    {fault : RuntimeFault} {node : Node}
    (h : t.Raises ⟨.byDepth depths, rounds⟩ (.fault fault (some node))) :
    fault.PointsAt (textAt source node.pos.line node.pos.column) := by
  obtain ⟨-, htask⟩ := hstands
  cases h with
  | @read m room init node name fault hfind =>
    obtain rfl := hsound.fault_of_read rfl hfind
    exact Expr.Throughout.self htask _ rfl
  | @write m room init node name v fault hfind =>
    obtain rfl := hsound.fault_of_write rfl hfind
    obtain ⟨-, value, hassign⟩ := htask
    exact Expr.Throughout.self hassign _ rfl
  | @unary m m' room init node op e v fault _ happly =>
    have hmark := Expr.Throughout.self htask _ rfl
    refine op.pointsAt happly ?_
    cases op <;> exact hmark
  | @binary m m' m'' room init node op left right a b fault _ _ happly =>
    have hmark := Expr.Throughout.self htask _ rfl
    refine op.pointsAt happly ?_
    cases op <;> exact hmark
  | uncallable => exact Expr.Throughout.self htask _ rfl
  | refused _ _ _ hrefused =>
    exact hrefused.pointsAt (Expr.Throughout.self htask _ rfl)

end Moments

-- =============================================================== sessions

/-- At every moment of the only unit of a session, all that is run
stands in its text. -/
theorem Session.AtMoment.standsIn {clock : Clock} {natives : List NativeSpec}
    {source : String} {depths : Depths} {t : Moment}
    (h : (Session.start clock natives).AtMoment source depths t) :
    (Discipline.throughout (·.StandsIn source)).Holds () t := by
  obtain ⟨program, uses, n, haccepts, rfl, hreaches⟩ := h
  have hstart : (Discipline.throughout (·.StandsIn source)).Holds ()
      ⟨(Session.start clock natives).machine, nestingRoom, none,
        .executeAll program⟩ :=
    ⟨fun scope name v hv f heq =>
        absurd heq (Machine.initial_plain clock natives scope name v hv f),
      readProgram_standsIn haccepts.read⟩
  obtain ⟨_, _, hholds⟩ := hstart.reaches (Discipline.throughout_lawful _)
    (Access.byDepth_honest _) hreaches
  exact hholds

/-- When a text is the only unit of a session and its run ends with a
fault, the fault has a node: the one that raised it in a step of its own
at some moment of the run. Where that node stands, the text begins with
what the fault is about: with the name that is not bound, as a whole
word, with the sign of the operator that refused an operand, or with the
opening parenthesis of the call that was refused. -/
theorem faults_point_at_text (clock : Clock) (natives : List NativeSpec)
    (source : String) (e : RuntimeError)
    (h : ((Session.start clock natives).run source).2.failure
      = some (.runtime e)) :
    ∃ (node : Node) (depths : Depths) (t : Moment),
      e.node = some node ∧
        (Session.start clock natives).AtMoment source depths t ∧
        t.Raises ⟨.byDepth depths, roundBound⟩ (.fault e.fault (some node)) ∧
        e.fault.PointsAt (textAt source node.pos.line node.pos.column) := by
  rcases Session.failure_of_run h with ⟨_, h⟩ | ⟨_, h⟩
    | ⟨program, uses, n, stop, m, haccepts, hrun, h⟩
  · cases h
  · cases h
  cases stop with
  | fault fault node =>
    cases h
    rcases interrupted_program hrun with htraces | ⟨_, _, hstop, -⟩
    -- A return at the top level is no fault.
    case inr => cases hstop
    cases node with
    | none => exact absurd htraces Moment.Traces.node_ne_none
    | some node =>
      obtain ⟨t, hreaches, hraises⟩ := htraces
      have hmoment : (Session.start clock natives).AtMoment source _ t :=
        ⟨program, uses, n, haccepts, rfl, hreaches⟩
      obtain ⟨limit, hsound⟩ :=
        (Scoping.paired_start clock natives).sound hmoment
      exact ⟨node, _, t, rfl, hmoment, hraises,
        hraises.pointsAt hsound hmoment.standsIn⟩
  | _ => cases h

theorem faults_point_at_text_inBody :
    let source := "fun f()\x7b\nreturn a;\x7df();"
    let node : Node := ⟨1, 2, 8, 16⟩
    ((Session.start 0 []).run source).2.failure
        = some (.runtime ⟨.undefined "a", some node⟩) ∧
      (∃ depths t, (Session.start 0 []).AtMoment source depths t ∧
        t.Raises ⟨.byDepth depths, roundBound⟩
          (.fault (.undefined "a") (some node))) ∧
      textAt source 2 8 = "a;\x7df();".toList ∧
      BeginsWithName (textAt source 2 8) "a" := by
  intro source node
  have hfailure : ((Session.start 0 []).run source).2.failure
      = some (.runtime ⟨.undefined "a", some node⟩) := by
    cbv
  obtain ⟨node', depths, t, hnode, ht, hraises, hpoints⟩ :=
    faults_point_at_text 0 [] source ⟨.undefined "a", some node⟩ hfailure
  cases hnode
  exact ⟨hfailure, ⟨depths, t, ht, hraises⟩, by cbv, hpoints⟩

end Lox
