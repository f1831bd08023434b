/-
A unit in two parts. To run one program and then another comes to the
same as to run the text of both as one unit, with a newline between them
(`run_append_newline`). The parts of the argument:

- The text of both is read as the two programs one behind the other, the
  second with its nodes further down (`readProgram_behind`), and the names
  of both are bound as they are alone (`bindProgram_mapNodes`).
- In a lexical run, a program at the top level leaves nothing but the
  memory to what follows it (`runProgram_append`), since nothing is local
  there.
- The second program runs with its nodes further down as it does alone
  (`carries_runProgram`), from a memory in which all functions have nodes
  of earlier programs and so are not moved (`Settled`).
- A session on the machine stays side by side with a lexical session
  (`Paired.run`), whether it runs the two units or the one.
-/
import Mathlib
import Lox.Proofs.Reading.Relocated
import Lox.Proofs.Scoping.Carried
import Lox.Proofs.Scoping.Replaced
import Lox.Proofs.Scoping.Sessions

namespace Lox

namespace Lexical

open Lox.Run

variable {rounds room : Nat}

-- ============================================================ the top level

section Top

variable {α β : Type}

/-- If the run ends with a result, this is true of it. -/
def Gives (p : α → Prop) (run : RunOn Memory α) : Prop :=
  ∀ μ a μ', run μ = .ok a μ' → p a

/-- A result that is there at once is the one that is given. -/
theorem Gives.pure {p : α → Prop} {a : α} (h : p a) :
    Gives p (pure a : RunOn Memory α) := by
  rintro μ a' μ' ⟨⟩
  exact h

/-- Any run gives something. -/
theorem Gives.any (run : RunOn Memory α) : Gives (fun _ => True) run :=
  fun _ _ _ _ => trivial

/-- Of runs one behind the other, what the second gives is given, from
whatever the first gave. -/
theorem Gives.bind {p : α → Prop} {q : β → Prop} {run : RunOn Memory α}
    {next : α → RunOn Memory β} (hrun : Gives p run)
    (hnext : ∀ a, p a → Gives q (next a)) : Gives q (run >>= next) := by
  intro μ b μ' h
  obtain ⟨a, μ₁, hfirst, hsecond⟩ := bind_eq_ok.1 h
  exact hnext a (hrun μ a μ₁ hfirst) μ₁ b μ' hsecond

/-- The node that a fault gets changes no result. -/
theorem Gives.located {p : α → Prop} {run : RunOn Memory α}
    (h : Gives p run) (node : Node) : Gives p (located node run) :=
  fun μ a μ' hrun => h μ a μ' (located_eq_ok.1 hrun)

/-- At the top level a declaration is one of a global, which no view shows. -/
theorem gives_declare (name : String) (v : Value) :
    Gives (· = View.top) (declare .top name v) := by
  rintro μ view μ' ⟨⟩
  rfl

/-- So is that of a function. -/
theorem gives_declareFunction (name : String) (params : List String)
    (body : List Stmt) :
    Gives (· = View.top) (declareFunction .top name params body) :=
  .bind (.any _) fun _ _ => gives_declare name _

/-- At the top level nothing is declared that a view could show. -/
theorem execute_top (s : Stmt) :
    Gives (fun ended => ended.2 = View.top)
      (execute rounds room .top s) := by
  have hpure : ∀ completion : Completion,
      Gives (fun ended => ended.2 = View.top)
        (pure (completion, View.top)) := fun _ => .pure rfl
  have hdeclared : ∀ view, view = View.top →
      Gives (fun ended => ended.2 = View.top)
        (pure (Completion.normal, view)) := fun _ hview => .pure hview
  cases room with
  | zero => exact fun _ _ _ => nofun
  | succ room =>
    unfold execute
    refine .located ?_ s.node
    cases s with
    | expr node value => exact .bind (.any _) fun _ _ => hpure _
    | print node value =>
      exact .bind (.any _) fun _ _ => .bind (.any _) fun _ _ => hpure _
    | varDecl node name init =>
      cases init <;> exact .bind (.any _) fun v _ =>
        .bind (gives_declare name.text v) hdeclared
    | funDecl node name paramsId params bodyNode body =>
      exact .bind (gives_declareFunction name.text _ body) hdeclared
    | block node body => exact .bind (.any _) fun _ _ => hpure _
    | cond node test yes no =>
      refine .bind (.any _) fun v _ => ?_
      split
      · exact .bind (.any _) fun _ _ => hpure _
      · cases no with
        | none => exact hpure _
        | some other => exact .bind (.any _) fun _ _ => hpure _
    | loop node test body => exact .bind (.any _) fun _ _ => hpure _
    | ret node value =>
      cases value with
      | none => exact hpure _
      | some e => exact .bind (.any _) fun _ _ => hpure _

/-- Statements of the top level one behind another. -/
theorem untilReturn_append {as bs : List Stmt} {μ μ' : Memory}
    (h : untilReturn (execute rounds room) .top as μ = .ok .normal μ') :
    untilReturn (execute rounds room) .top (as ++ bs) μ
      = untilReturn (execute rounds room) .top bs μ' := by
  induction as generalizing μ with
  | nil =>
    cases h
    rfl
  | cons s as ih =>
    obtain ⟨⟨completion, view⟩, μ₁, hs, has⟩ := bind_eq_ok.1 h
    obtain rfl : view = .top := execute_top s _ _ _ hs
    cases completion with
    | returned v => cases has
    | normal =>
      rw [List.cons_append, untilReturn, bind_of_ok hs]
      exact ih has

/-- Where the first of two programs has run to its end, the second runs as it
would by itself: no view is left over from the first. -/
theorem runProgram_append {as bs : List Stmt} {μ μ' : Memory}
    (h : runProgram rounds room as μ = .ok () μ') :
    runProgram rounds room (as ++ bs) μ = runProgram rounds room bs μ' := by
  obtain ⟨completion, μ₁, has, hend⟩ := bind_eq_ok.1 h
  cases completion with
  | returned v => cases hend
  | normal =>
    cases hend
    unfold runProgram
    rw [bind_apply, bind_apply, untilReturn_append has]

end Top

-- ======================================================= nodes of the past

/-- A replacement that leaves all nodes before this number alone. -/
def FixesBelow (f : Node → Node) (n : Nat) : Prop :=
  ∀ id pos, id < n → f ⟨id, pos⟩ = ⟨id, pos⟩

namespace Session

variable {l : Session}

/-- Every node in the memory has its number already, so a replacement of
the nodes to come changes nothing. -/
def Settled (l : Session) : Prop :=
  ∀ f, FixesBelow f l.nextId → l.memory.carry f "" = l.memory

/-- What is older than some node is older than later ones. -/
theorem Settled.numbered (h : l.Settled) {n : Nat} (hle : l.nextId ≤ n) :
    Settled { l with nextId := n } :=
  fun f hf => h f fun id pos hid => hf id pos (Nat.lt_of_lt_of_le hid hle)

/-- If the functions of a memory have no node that is replaced, the memory is
carried over as it is, with more printed before. -/
theorem carry_rest {f : Node → Node} {μ : Memory}
    (h : μ.carry f "" = μ) (before : String) :
    Memory.carry f before { μ with output := "" }
      = { μ with output := before } := by
  have hcells : μ.cells.map (·.mapNodes f) = μ.cells :=
    congrArg Memory.cells h
  have hglobals : μ.globals.mapFn (Function.mapNodes f) = μ.globals :=
    congrArg Memory.globals h
  simp [Memory.carry, hcells, hglobals]

/-- A program whose nodes have their numbers leaves no others. -/
theorem Settled.runAccepted (h : l.Settled) {program : List Stmt}
    (hids : ∀ id ∈ Stmt.idsAll program, id < l.nextId) :
    (l.runAccepted program).1.Settled := by
  intro f hf
  have hfixes : FixesBelow f l.nextId := by
    unfold Session.runAccepted at hf
    split at hf <;> exact hf
  have hprogram : Stmt.mapAll f program = program :=
    Stmt.mapAll_of_fixed program fun id hid pos => hfixes id pos (hids id hid)
  have hrun := carries_runProgram f "" roundBound nestingRoom program l.memory
  rw [hprogram, h f hfixes] at hrun
  cases hresult : runProgram roundBound nestingRoom program l.memory with
  | ok u μ =>
    rw [hresult] at hrun
    injection hrun with _ hμ
    rw [runAccepted_of_ok hresult]
    exact carry_rest hμ.symm ""
  | error stop μ =>
    rw [hresult] at hrun
    injection hrun with _ hμ
    rw [runAccepted_of_error hresult]
    exact carry_rest hμ.symm ""

/-- The functions that a unit makes have the nodes of the unit, or of earlier
ones. -/
theorem Settled.run (h : l.Settled) (source : String) :
    (l.run source).1.Settled := by
  have hle := le_nextId_readProgram source l.nextId
  unfold Session.run
  cases hread : readProgram source l.nextId with
  | mk read n =>
    rw [hread] at hle
    cases read with
    | error e => exact h.numbered hle
    | ok program =>
      simp only
      cases bindProgram program with
      | error errors => exact h.numbered hle
      | ok uses =>
        have hids := numbered_readProgram hread
        exact (h.numbered hle).runAccepted fun id hid => (hids.bounds id hid).2

/-- So it is after any units. -/
theorem Settled.runAll (h : l.Settled) (sources : List String) :
    (l.runAll sources).1.Settled := by
  induction sources generalizing l with
  | nil => exact h
  | cons source sources ih => exact ih (h.run source)

/-- A native has no nodes, so it does not matter when it is installed. -/
theorem install_carry (f : Node → Node) (μ : Memory) (spec : NativeSpec) :
    (μ.install spec).carry f "" = (μ.carry f "").install spec := by
  have hput := μ.globals.put_mapFn (g := Function.mapNodes f) spec.name
    (.native ⟨μ.nextStamp, spec.name, spec.arity, spec.action⟩)
  rw [Value.mapFn_native] at hput
  simp [Memory.install, Memory.carry, hput]

/-- At the start of a session there are only natives. -/
theorem settled_start (clock : Clock) (natives : List NativeSpec) :
    (start clock natives).Settled := by
  intro f _
  have hempty : Memory.carry f "" ⟨[], [], [], "", 0, clock⟩
      = ⟨[], [], [], "", 0, clock⟩ := rfl
  refine List.foldlRecOn (motive := fun μ => μ.carry f "" = μ) _
    Memory.install hempty fun μ h spec _ => ?_
  rw [install_carry, h]

/-- What two programs leave, one behind the other in one unit. -/
theorem Settled.runAccepted_append {n : Nat} {f : Node → Node}
    {as : List Stmt} {μ : Memory}
    (has : runProgram roundBound nestingRoom as l.memory = .ok () μ)
    (hμ : Settled ⟨{ μ with output := "" }, n⟩) (hf : FixesBelow f n)
    (n' : Nat) (bs : List Stmt) :
    let second := Session.runAccepted ⟨{ μ with output := "" }, n'⟩ bs
    Session.runAccepted { l with nextId := n' } (as ++ Stmt.mapAll f bs)
      = (⟨second.1.memory.carry f "", n'⟩,
        ⟨μ.output ++ second.2.output,
          second.2.failure.map (·.mapFn (Function.mapNodes f) f)⟩) := by
  -- The first program has left nothing that moving the nodes would change.
  have hmemory : Memory.carry f μ.output { μ with output := "" } = μ :=
    carry_rest (hμ f hf) μ.output
  have hrun : runProgram roundBound nestingRoom (as ++ Stmt.mapAll f bs)
      l.memory = carryResult f μ.output id
        (runProgram roundBound nestingRoom bs { μ with output := "" }) := by
    rw [runProgram_append has, ← carries_runProgram, hmemory]
  cases hbs : runProgram roundBound nestingRoom bs
      { μ with output := "" } with
  | ok u μ₂ =>
    rw [hbs] at hrun
    rw [runAccepted_of_ok (l := ⟨_, n'⟩) hbs,
      runAccepted_of_ok (l := { l with nextId := n' }) hrun]
    simp [Memory.carry]
  | error stop μ₂ =>
    rw [hbs] at hrun
    rw [runAccepted_of_error (l := ⟨_, n'⟩) hbs,
      runAccepted_of_error (l := { l with nextId := n' }) hrun]
    simp [Memory.carry, Failure.ofInterruption_mapFn]

end Session

end Lexical

-- ================================================================ one unit

/-- What moves the nodes of the second text leaves the nodes of the first
alone. -/
theorem fixesBelow_behind (n : Nat) (source : String) :
    Lexical.FixesBelow (Node.behind n source) n := by
  intro id pos hid
  rw [Node.behind, if_neg (Nat.not_le.2 hid)]

section Units

variable {s : Session} {a b : String} {as bs : List Stmt}
  {uses uses' : List LocalUse} {n₁ n₂ : Nat}

/-- Two texts that are accepted one after the other are accepted as one. -/
theorem Session.Accepts.append (ha : s.Accepts a as uses n₁)
    (hb : (s.run a).1.Accepts b bs uses' n₂) :
    s.Accepts (a ++ "\n" ++ b)
      (as ++ Stmt.mapAll (Node.behind n₁ a) bs)
      (uses ++ uses'.map (·.mapNode (Node.behind n₁ a))) n₂ where
  read := by
    have hread := hb.read
    rw [ha.run, Session.nextId_runBound] at hread
    exact readProgram_behind ha.read hread
  bound := bindProgram_append ha.bound (bindProgram_mapNodes hb.bound)

/-- The same is recorded for one unit as for two. -/
theorem Session.Accepts.table_append (ha : s.Accepts a as uses n₁)
    (hb : (s.run a).1.Accepts b bs uses' n₂) :
    (s.run (a ++ "\n" ++ b)).1.depths = ((s.run a).1.run b).1.depths ∧
      (s.run (a ++ "\n" ++ b)).1.nextId = ((s.run a).1.run b).1.nextId := by
  rw [(ha.append hb).run, hb.run, ha.run]
  refine ⟨?_, rfl⟩
  rw [depths_runBound, depths_runBound, depths_runBound,
    Depths.record_append, Depths.record_mapNode _ _ (Node.id_behind n₁ a)]

/-- The lexical session does the same in one unit as in two. -/
theorem Session.Accepts.runLexically_append {l : Lexical.Session}
    (hl : l.Settled) (hnext : l.nextId = s.nextId)
    (ha : s.Accepts a as uses n₁) (hend : (l.run a).2.failure = none)
    (hb : (s.run a).1.Accepts b bs uses' n₂) :
    let f := Node.behind n₁ a
    let first := l.run a
    let second := first.1.run b
    l.run (a ++ "\n" ++ b)
      = (⟨second.1.memory.carry f "", n₂⟩,
        ⟨first.2.output ++ second.2.output,
          second.2.failure.map (·.mapFn (Function.mapNodes f) f)⟩) := by
  have hsettled := hl.run a
  have hfirst := ha.runLexically hnext
  have hjoined := (ha.append hb).runLexically hnext
  cases hresult : Lexical.runProgram roundBound nestingRoom as l.memory with
  | error stop μ =>
    rw [hfirst, Lexical.Session.runAccepted_of_error
      (l := { l with nextId := n₁ }) hresult] at hend
    cases hend
  | ok u μ =>
    rw [Lexical.Session.runAccepted_of_ok (l := { l with nextId := n₁ })
      hresult] at hfirst
    rw [hfirst] at hsettled
    have hsecond : (l.run a).1.run b
        = Lexical.Session.runAccepted ⟨{ μ with output := "" }, n₂⟩ bs := by
      have hnext' : (l.run a).1.nextId = (s.run a).1.nextId := by
        rw [hfirst, ha.run]
        rfl
      rw [hb.runLexically hnext', hfirst]
    have hboth := hsettled.runAccepted_append hresult
      (fixesBelow_behind n₁ a) n₂ bs
    simp only
    rw [hjoined, hsecond, hfirst]
    exact hboth

/-- Side by side with a lexical session, the session does the same in
one unit as in two, up to closures and nodes. -/
theorem Session.Accepts.run_append {l : Lexical.Session}
    (hpaired : Scoping.Paired s l) (hl : l.Settled)
    (ha : s.Accepts a as uses n₁) (hend : (s.run a).2.failure = none)
    (hb : (s.run a).1.Accepts b bs uses' n₂) :
    let f := Node.behind n₁ a
    let first := s.run a
    let second := first.1.run b
    let whole := s.run (a ++ "\n" ++ b)
    whole.2.mapFn Function.unclosed id
        = Report.mapFn (Function.mapNodes f ∘ Function.unclosed) f
            ⟨first.2.output ++ second.2.output, second.2.failure⟩ ∧
      whole.1.machine.globals.mapFn Function.unclosed
        = second.1.machine.globals.mapFn
            (Function.mapNodes f ∘ Function.unclosed) := by
  obtain ⟨hpaired₁, hreport₁⟩ := hpaired.run a
  obtain ⟨hpaired₂, hreport₂⟩ := hpaired₁.run b
  obtain ⟨hpaired', hreport'⟩ := hpaired.run (a ++ "\n" ++ b)
  have hend' : (l.run a).2.failure = none := by
    rw [hreport₁, Report.mapFn, hend]
    rfl
  have hjoined := ha.runLexically_append hl hpaired.nextId hend' hb
  have hglobals' := hpaired'.globals
  rw [hjoined] at hreport' hglobals'
  simp only
  refine ⟨?_, ?_⟩
  · rw [← hreport', hreport₁, hreport₂]
    simp [Report.mapFn, Function.comp_def, Failure.mapFn_mapFn]
  · rw [← hglobals', ← Bindings.mapFn_mapFn, ← hpaired₂.globals]
    exact Bindings.sorted_mapFn _

end Units

/-- To run a program and then another, when the first comes to its end,
is to run their texts as one unit, with a newline between them. The same
is printed, the globals look the same and are the same but for closures
and nodes, the table has the same entries, and what ended the second
program ends the unit, at the same node, which is further down by the
lines of the first text if it is a node of the second. -/
theorem run_append_newline (clock : Clock) (natives : List NativeSpec)
    (history : List String) (a b : String) (as bs : List Stmt)
    (uses uses' : List LocalUse) (n₁ n₂ : Nat) :
    let s := ((Session.start clock natives).runAll history).1
    s.Accepts a as uses n₁ → (s.run a).2.failure = none →
    (s.run a).1.Accepts b bs uses' n₂ →
    let f := Node.behind n₁ a
    let first := s.run a
    let second := first.1.run b
    let whole := s.run (a ++ "\n" ++ b)
    let report : Report :=
      ⟨first.2.output ++ second.2.output, second.2.failure⟩
    whole.2.shown = (report.mapFn id f).shown ∧
      whole.1.machine.globals.shown = second.1.machine.globals.shown ∧
      whole.1.depths = second.1.depths ∧
      whole.1.nextId = second.1.nextId ∧
      whole.2.mapFn Function.unclosed id
        = report.mapFn (Function.mapNodes f ∘ Function.unclosed) f ∧
      whole.1.machine.globals.mapFn Function.unclosed
        = second.1.machine.globals.mapFn
            (Function.mapNodes f ∘ Function.unclosed) := by
  intro s ha hend hb f first second whole report
  obtain ⟨hpaired, -⟩ := (Scoping.paired_start clock natives).runAll history
  have hsettled :=
    (Lexical.Session.settled_start clock natives).runAll history
  obtain ⟨hreport, hglobals⟩ := ha.run_append hpaired hsettled hend hb
  obtain ⟨hdepths, hnextId⟩ := ha.table_append hb
  have hunnoticed : Unnoticed (Function.mapNodes f ∘ Function.unclosed) :=
    ⟨fun _ => rfl, fun _ => rfl, fun _ => rfl⟩
  refine ⟨?_, ?_, hdepths, hnextId, hreport, hglobals⟩
  · rw [← whole.2.shown_mapFn unnoticed_unclosed, hreport,
      ← (report.mapFn id f).shown_mapFn hunnoticed, Report.mapFn_mapFn]
    rfl
  · rw [← Bindings.shown_mapFn unnoticed_unclosed, hglobals,
      Bindings.shown_mapFn hunnoticed]

/-- The program `var a=nil;` with its value on a line of its own. -/
def nilDeclared : List Stmt :=
  [.varDecl ⟨2, 1, 1, 0⟩ ⟨"a", 1, 5, 4⟩ (some (.literal ⟨1, 2, 1, 7⟩ .nil))]

/-- The program `print a;-a;`, read behind the other. -/
def nilNegated : List Stmt :=
  [.print ⟨4, 1, 1, 0⟩ (.var ⟨3, 1, 7, 6⟩ "a"),
    .expr ⟨7, 1, 9, 8⟩ (.unary ⟨6, 1, 9, 8⟩ .negate (.var ⟨5, 1, 10, 9⟩ "a"))]

theorem accepts_nilDeclared :
    (Session.start 0 []).Accepts "var a=\nnil;" nilDeclared [] 3 where
  read := by
    show readProgram "var a=\nnil;" 1 = _
    cbv
  bound := by
    cbv

theorem accepts_nilNegated :
    ((Session.start 0 []).run "var a=\nnil;").1.Accepts "print a;-a;"
      nilNegated [] 8 where
  read := by
    rw [accepts_nilDeclared.run, Session.nextId_runBound]
    cbv
  bound := by
    cbv

/-- A declaration over two lines, and behind it a print and a fault, which in
one text is found two lines further down. -/
theorem run_append_newline_negatedNil :
    ((Session.start 0 []).run "var a=\nnil;").2 = ⟨"", none⟩ ∧
      (((Session.start 0 []).run "var a=\nnil;").1.run "print a;-a;").2
        = ⟨"nil\n", some (.runtime ⟨.notNumber .nil, some ⟨6, 1, 9, 8⟩⟩)⟩ ∧
      Report.mapFn Function.unclosed id
          ((Session.start 0 []).run
            ("var a=\nnil;" ++ "\n" ++ "print a;-a;")).2
        = ⟨"nil\n",
            some (.runtime ⟨.notNumber .nil, some ⟨6, 3, 9, 20⟩⟩)⟩ := by
  have hfirst : ((Session.start 0 []).run "var a=\nnil;").2 = ⟨"", none⟩ := by
    cbv
  have hsecond :
      (((Session.start 0 []).run "var a=\nnil;").1.run "print a;-a;").2
        = ⟨"nil\n",
            some (.runtime ⟨.notNumber .nil, some ⟨6, 1, 9, 8⟩⟩)⟩ := by
    cbv
  obtain ⟨-, -, -, -, hreport, -⟩ := run_append_newline 0 [] []
    "var a=\nnil;" "print a;-a;" nilDeclared nilNegated [] [] 3 8
    accepts_nilDeclared (congrArg Report.failure hfirst) accepts_nilNegated
  refine ⟨hfirst, hsecond, ?_⟩
  simp only [Session.runAll] at hreport
  rw [hreport, hfirst, hsecond]
  cbv

end Lox
