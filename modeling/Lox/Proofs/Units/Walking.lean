/-
To walk outwards instead of jumping. A session could do without its
table: every use of a name would walk the chain from where it runs to
the first scope that binds the name. In general that finds something
else, as what a scope binds changes while functions hold on to it. If
every local name is declared once in all units, if no native has it, and
if no use of it is left out of the table, then both find the same at
every moment, and the sessions are the same (`walking_runs_alike`).

What carries the proof from unit to unit (`Walkable`) is that the scopes
of the store are marked for each name as their making asks, and that the
functions in it are made of uses that the table lists.
-/
import Lox.Proofs.Scoping.Once

namespace Lox

-- ================================================== other ways to find

namespace Session

/-- Runs a program whose local uses are known, with a way to find names
that may go by the table. -/
def runBoundBy (find : Depths → Access) (s : Session) (program : List Stmt)
    (uses : List LocalUse) : Session × Report :=
  let depths := s.depths.record uses
  let setting : Setting := ⟨find depths, roundBound⟩
  let (m, stop) : Machine × Option Interruption :=
    match runProgram setting nestingRoom program s.machine with
    | .ok _ m => (m, none)
    | .error stop m => (m, some stop)
  let rested := { m with env := .globals, output := "" }
  ({ s with machine := rested, depths },
    ⟨m.output, stop.map .ofInterruption⟩)

/-- Runs a unit. -/
def runBy (find : Depths → Access) (s : Session) (source : String) :
    Session × Report :=
  let (read, nextId) := readProgram source s.nextId
  let s := { s with nextId }
  match read with
  | .error e => (s, ⟨"", some (.text e)⟩)
  | .ok program =>
    match bindProgram program with
    | .error errors => (s, ⟨"", some (.binding errors)⟩)
    | .ok uses => s.runBoundBy find program uses

/-- Runs units one after another. -/
def runAllBy (find : Depths → Access) (s : Session) :
    List String → Session × List Report
  | [] => (s, [])
  | source :: sources =>
    let (s, report) := s.runBy find source
    let (s, reports) := s.runAllBy find sources
    (s, report :: reports)

/-- Two ways to find names that let the program run alike. -/
theorem runBoundBy_congr {find find' : Depths → Access} {s : Session}
    {program : List Stmt} {uses : List LocalUse}
    (h : runProgram ⟨find (s.depths.record uses), roundBound⟩ nestingRoom
        program s.machine
      = runProgram ⟨find' (s.depths.record uses), roundBound⟩ nestingRoom
        program s.machine) :
    s.runBoundBy find program uses = s.runBoundBy find' program uses := by
  unfold runBoundBy
  simp only [h]

theorem runBoundBy_byDepth (s : Session) (program : List Stmt)
    (uses : List LocalUse) :
    s.runBoundBy .byDepth program uses = s.runBound program uses := rfl

/-- By the table, this is how a session runs. -/
theorem runAllBy_byDepth (s : Session) (sources : List String) :
    s.runAllBy .byDepth sources = s.runAll sources := by
  induction sources generalizing s with
  | nil => rfl
  | cons source sources ih =>
    have hrun : s.runBy .byDepth source = s.run source := rfl
    simp only [runAllBy, runAll, hrun, ih]

end Session

-- ====================================================== accepted units

/-- The program of a unit and its local uses. -/
structure AcceptedUnit where
  program : List Stmt
  uses : List LocalUse

/-- The session takes these texts one after another for these units. -/
inductive Session.AcceptsAll :
    Session → List String → List AcceptedUnit → Prop where
  | nil {s : Session} : AcceptsAll s [] []
  | cons {s : Session} {source : String} {sources : List String}
      {unit : AcceptedUnit} {units : List AcceptedUnit} {n : Nat} :
      s.Accepts source unit.program unit.uses n →
      AcceptsAll (s.run source).1 sources units →
      AcceptsAll s (source :: sources) (unit :: units)

/-- The names that the units declare at the top level, as often as they
do. -/
def globalNames (units : List AcceptedUnit) : List String :=
  units.flatMap fun unit => Stmt.allDeclaredHere unit.program

/-- The names that the units declare in blocks and functions, as often as
they do. -/
def localNames (units : List AcceptedUnit) : List String :=
  units.flatMap fun unit => Stmt.allDeclaredInside unit.program

/-- Every local name is declared once in all units, no native has it, and
no use of it is left out of the table. -/
structure SingleLocals (natives : List NativeSpec)
    (units : List AcceptedUnit) : Prop where
  once : ∀ name ∈ localNames units,
    (globalNames units ++ localNames units).count name = 1
  noNative : ∀ spec ∈ clockSpec :: natives, spec.name ∉ localNames units
  listed : ∀ unit ∈ units, Stmt.AllThroughout
    (Expr.Listed (Depths.record ∅ unit.uses) (localNames units)) unit.program

namespace SingleLocals

variable {natives : List NativeSpec} {units : List AcceptedUnit}
  {unit : AcceptedUnit} {name : String}

/-- A name that a unit declares at the top level is no local name. -/
theorem not_local (h : SingleLocals natives units) (hunit : unit ∈ units)
    (hname : name ∈ Stmt.allDeclaredHere unit.program) :
    name ∉ localNames units := by
  intro hlocal
  have honce := h.once name hlocal
  have hglobal : name ∈ globalNames units :=
    List.mem_flatMap.2 ⟨unit, hunit, hname⟩
  have hpos := List.count_pos_iff.2 hglobal
  have hpos' := List.count_pos_iff.2 hlocal
  rw [List.count_append] at honce
  omega

/-- What a unit declares in its blocks and functions, it declares once at
most. -/
theorem count_inside (h : SingleLocals natives units) (hunit : unit ∈ units)
    (name : String) :
    (Stmt.allDeclaredInside unit.program).count name ≤ 1 := by
  by_cases hlocal : name ∈ localNames units
  · have honce := h.once name hlocal
    have hsub : (Stmt.allDeclaredInside unit.program).Sublist
        (localNames units) := by
      obtain ⟨before, after, rfl⟩ := List.append_of_mem hunit
      rw [localNames, List.flatMap_append, List.flatMap_cons]
      exact (List.sublist_append_left _ _).trans
        (List.sublist_append_right _ _)
    have hle := hsub.count_le name
    rw [List.count_append] at honce
    omega
  · have hnot : name ∉ Stmt.allDeclaredInside unit.program := fun hname =>
      hlocal (List.mem_flatMap.2 ⟨unit, hunit, hname⟩)
    rw [List.count_eq_zero_of_not_mem hnot]
    exact Nat.zero_le _

end SingleLocals

-- =========================================================== between units

theorem Expr.Listed.record {depths : Depths} {locals : List String}
    {e : Expr} (h : e.Listed depths locals) (uses : List LocalUse) :
    e.Listed (depths.record uses) locals := fun node name huse hentry =>
  h node name huse (Depths.getElem?_record_eq_none.1 hentry).1

theorem Expr.Listed.of_unit {uses : List LocalUse} {locals : List String}
    {e : Expr} (h : e.Listed (Depths.record ∅ uses) locals)
    (depths : Depths) : e.Listed (depths.record uses) locals :=
  fun node name huse hentry => h node name huse
    (Depths.getElem?_record_eq_none.2 ⟨Std.TreeMap.getElem?_emptyc,
      (Depths.getElem?_record_eq_none.1 hentry).2⟩)

/-- What a session keeps when the local names are declared once. -/
structure Walkable (locals : List String) (s : Session) : Prop where
  paired : ∃ l, Scoping.Paired s l
  marked : ∀ name, ∃ k : Marks, (bindsOnce name).OfStore k s.machine.store ∧
    0 < k.size ∧ k.marked 0 = decide (name ∉ locals)
  listed : (Discipline.throughout (Expr.Listed s.depths locals)).OfStore ()
    s.machine.store

theorem walkable_start {natives : List NativeSpec}
    {units : List AcceptedUnit} (h : SingleLocals natives units)
    (clock : Clock) :
    Walkable (localNames units) (.start clock natives) where
  paired := ⟨_, Scoping.paired_start clock natives⟩
  marked name := by
    let k : Marks := ⟨1, fun _ => decide (name ∉ localNames units)⟩
    refine ⟨k, ?_, Nat.zero_lt_one, rfl⟩
    have hinitial : (bindsOnce name).OfStore k .initial := by
      refine ⟨rfl, fun i hi => ?_, fun i other v hv => ?_⟩
      · rw [Store.lookup_initial] at hi
        cases hi
      · rw [Store.lookup_initial] at hv
        cases hv
    refine Machine.initial_store hinitial
      (fun s spec native hspec hs => ?_) clock
    refine bindsOnce.ofStore_bind hs (fun f hf => by cases hf) fun hname => ?_
    exact decide_eq_true (hname ▸ h.noNative spec hspec)
  listed scope name v hv f hf :=
    absurd hf (Machine.initial_plain clock natives scope name v hv f)

section Unit

variable {natives : List NativeSpec} {units : List AcceptedUnit}
  {unit : AcceptedUnit} {s : Session} {source : String} {n : Nat}

/-- The globals admit what a unit declares, marked as they are. -/
theorem SingleLocals.begins (h : SingleLocals natives units)
    (hunit : unit ∈ units) {name : String} {k : Marks} (hpos : 0 < k.size)
    (hglobals : k.marked 0 = decide (name ∉ localNames units)) :
    (bindsOnce name).OfStmts k .globals unit.program := by
  have hcount := h.count_inside hunit name
  refine ⟨⟨⟨fun i hi => ?_, List.mem_singleton.2 rfl⟩, ?_⟩, fun hname => ?_⟩
  · obtain rfl := List.mem_singleton.1 hi
    exact hpos
  · by_cases hlocal : name ∈ localNames units
    · simpa [Marks.count, Env.globals, Env.chain, hglobals, hlocal]
        using hcount
    · have hnot : name ∉ Stmt.allDeclaredInside unit.program := fun hname =>
        hlocal (List.mem_flatMap.2 ⟨unit, hunit, hname⟩)
      simp [Marks.count, Env.globals, Env.chain, hglobals, hlocal,
        List.count_eq_zero_of_not_mem hnot]
  · show k.marked 0 = true
    rw [hglobals]
    exact decide_eq_true (h.not_local hunit hname)

/-- The moment before a unit runs. -/
abbrev Session.before (s : Session) (unit : AcceptedUnit) : Moment :=
  ⟨s.machine, nestingRoom, none, .executeAll unit.program⟩

theorem Walkable.marked_before (hs : Walkable (localNames units) s)
    (h : SingleLocals natives units) (hunit : unit ∈ units)
    (name : String) :
    ∃ k, (bindsOnce name).Holds k (s.before unit) ∧ 0 < k.size ∧
      k.marked 0 = decide (name ∉ localNames units) := by
  obtain ⟨⟨l, hpaired⟩, hmarked, -⟩ := hs
  obtain ⟨k, hstore, hpos, hglobals⟩ := hmarked name
  have hbegins := h.begins hunit hpos hglobals
  rw [← hpaired.ground] at hbegins
  exact ⟨k, ⟨hstore, hbegins⟩, hpos, hglobals⟩

theorem Walkable.listed_before (hs : Walkable (localNames units) s)
    (h : SingleLocals natives units) (hunit : unit ∈ units) :
    (Discipline.throughout (Expr.Listed (s.depths.record unit.uses)
      (localNames units))).Holds () (s.before unit) :=
  ⟨fun scope name v hv f hf => Stmt.allThroughout_imp
      (fun _ he => he.record unit.uses) f.body
      (hs.listed scope name v hv f hf),
    Stmt.allThroughout_imp (fun _ he => he.of_unit s.depths) unit.program
      (h.listed unit hunit)⟩

/-- At every moment of such a unit, to walk finds what the table leads
to. -/
theorem Walkable.allAgree (hs : Walkable (localNames units) s)
    (h : SingleLocals natives units) (hunit : unit ∈ units)
    (haccepts : s.Accepts source unit.program unit.uses n) :
    (s.before unit).AllAgree (.byDepth (s.depths.record unit.uses)) .byWalk
      roundBound := by
  intro t hreaches
  have hhonest : (Access.byDepth (s.depths.record unit.uses)).Honest :=
    Access.byDepth_honest _
  obtain ⟨l, hpaired⟩ := hs.paired
  obtain ⟨limit, hsound⟩ :=
    hpaired.sound ⟨unit.program, unit.uses, n, haccepts, rfl, hreaches⟩
  have honce : DeclaredOnce (localNames units) t := by
    intro name
    obtain ⟨k, hholds, hpos, hglobals⟩ := hs.marked_before h hunit name
    obtain ⟨k', hlater, hholds'⟩ :=
      hholds.reaches (bindsOnce_lawful name) hhonest hreaches
    exact ⟨k', hholds', (hlater.2 0 hpos).trans hglobals⟩
  obtain ⟨_, -, hlisted⟩ := (hs.listed_before h hunit).reaches
    (Discipline.throughout_lawful _) hhonest hreaches
  exact hsound.walk_agrees honce hlisted

/-- Such a unit runs alike by walking. -/
theorem Walkable.runBy (hs : Walkable (localNames units) s)
    (h : SingleLocals natives units) (hunit : unit ∈ units)
    (haccepts : s.Accepts source unit.program unit.uses n) :
    s.runBy (fun _ => .byWalk) source = s.run source := by
  have hsame : Run.untilReturn
        (execute ⟨.byDepth (s.depths.record unit.uses), roundBound⟩
          nestingRoom) unit.program s.machine
      = Run.untilReturn (execute ⟨.byWalk, roundBound⟩ nestingRoom)
        unit.program s.machine :=
    sameRun_of_agrees _ (hs.allAgree h hunit haccepts)
  have hrun : runProgram ⟨.byDepth (s.depths.record unit.uses), roundBound⟩
        nestingRoom unit.program s.machine
      = runProgram ⟨.byWalk, roundBound⟩ nestingRoom unit.program
        s.machine :=
    bind_congr_at hsame fun _ _ _ => rfl
  rw [haccepts.run]
  unfold Session.runBy
  rw [haccepts.read]
  simp only [haccepts.bound]
  rw [← Session.runBoundBy_byDepth]
  exact Session.runBoundBy_congr hrun.symm

/-- What such a unit leaves is kept again. -/
theorem Walkable.run (hs : Walkable (localNames units) s)
    (h : SingleLocals natives units) (hunit : unit ∈ units)
    (haccepts : s.Accepts source unit.program unit.uses n) :
    Walkable (localNames units) (s.run source).1 := by
  let setting : Setting :=
    ⟨.byDepth (s.depths.record unit.uses), roundBound⟩
  have hhonest : setting.access.Honest := Access.byDepth_honest _
  obtain ⟨l, hpaired⟩ := hs.paired
  obtain ⟨hpaired', -⟩ := hpaired.run source
  have hstore := Session.store_runBound { s with nextId := n } unit.program
    unit.uses
  rw [← haccepts.run] at hstore
  have hdepths : (s.run source).1.depths = s.depths.record unit.uses := by
    rw [haccepts.run, Session.depths_runBound]
  refine ⟨⟨_, hpaired'⟩, fun name => ?_, ?_⟩
  · obtain ⟨k, hholds, hpos, hglobals⟩ := hs.marked_before h hunit name
    obtain ⟨k', hlater, hkept⟩ := (bindsOnce_lawful name).runProgram hhonest
      hholds.1 hholds.2
    rw [hstore]
    exact ⟨k', hkept, Nat.lt_of_lt_of_le hpos hlater.1,
      (hlater.2 0 hpos).trans hglobals⟩
  · have hholds := hs.listed_before h hunit
    obtain ⟨_, -, hkept⟩ := (Discipline.throughout_lawful _).runProgram
      hhonest hholds.1 hholds.2
    rw [hstore, hdepths]
    exact hkept

/-- The same of any units of such units. -/
theorem Walkable.runAllBy {units' : List AcceptedUnit}
    {sources : List String} (hs : Walkable (localNames units) s)
    (h : SingleLocals natives units) (hunits : ∀ unit ∈ units', unit ∈ units)
    (haccepts : s.AcceptsAll sources units') :
    s.runAllBy (fun _ => .byWalk) sources = s.runAll sources := by
  induction haccepts with
  | nil => rfl
  | @cons s source sources unit units' n haccepts _ ih =>
    rw [List.forall_mem_cons] at hunits
    have hrun := hs.runBy h hunits.1 haccepts
    have hrest := ih (hs.run h hunits.1 haccepts) hunits.2
    simp only [Session.runAllBy, Session.runAll, hrun, hrest]

end Unit

-- =============================================================== sessions

/-- If all units are accepted, every local name is declared once in all
of them, no native has it, and no use of it is left out of the table,
then it makes no difference to find every name by walking outwards from
where it is used: all units print the same, fail in the same way and
leave the same behind. -/
theorem walking_runs_alike (clock : Clock) (natives : List NativeSpec)
    (sources : List String) (units : List AcceptedUnit)
    (haccepts : (Session.start clock natives).AcceptsAll sources units)
    (hsingle : SingleLocals natives units) :
    (Session.start clock natives).runAllBy (fun _ => .byWalk) sources
      = (Session.start clock natives).runAll sources :=
  (walkable_start hsingle clock).runAllBy hsingle (fun _ hunit => hunit)
    haccepts

/-- The program `fun f(x){{print x;}}f(true);`, whose one local name is
used a scope further in. -/
def usedFurtherIn : AcceptedUnit :=
  let node (id column : Nat) : Node := ⟨id, 1, column, column - 1⟩
  let name (text : String) (column : Nat) : Name :=
    ⟨text, 1, column, column - 1⟩
  { program :=
      [.funDecl (node 6 1) (name "f" 5) 5 [name "x" 7] (node 4 9)
          [.block (node 3 10) [.print (node 2 11) (.var (node 1 17) "x")]],
        .expr (node 11 21) (.call (node 10 22) 9 (.var (node 7 21) "f")
          [.literal (node 8 23) (.bool true)])]
    uses := [⟨node 1 17, "x", .read, 1⟩] }

theorem acceptsAll_usedFurtherIn :
    (Session.start 0 []).AcceptsAll
      ["fun f(x)\x7b\x7bprint x;\x7d\x7df(true);"] [usedFurtherIn] := by
  refine .cons ⟨(?_ : _ = (_, 12)), ?_⟩ .nil
  · show readProgram "fun f(x)\x7b\x7bprint x;\x7d\x7df(true);" 1 = _
    cbv
  · cbv

theorem singleLocals_usedFurtherIn : SingleLocals [] [usedFurtherIn] where
  once := by decide
  noNative := by decide
  listed := by
    have hother : ∀ {e : Expr}, (∀ node, e.use? ≠ some (node, "x")) →
        e.Listed (Depths.record ∅ usedFurtherIn.uses) ["x"] :=
      fun h node name huse _ hname => by
        obtain rfl := List.mem_singleton.1 hname
        exact h node huse
    have hused : ∀ {node : Node}, node.id = 1 →
        (Expr.var node "x").Listed (Depths.record ∅ usedFurtherIn.uses)
          ["x"] := by
      rintro node hid _ _ ⟨⟩ hentry
      obtain ⟨-, hnone⟩ := Depths.getElem?_record_eq_none.1 hentry
      exact absurd hid.symm (hnone _ List.mem_cons_self)
    exact List.forall_mem_singleton.2 ⟨⟨⟨hused rfl, trivial⟩, trivial⟩,
      ⟨hother nofun, hother (by simp [Expr.use?]), hother nofun, trivial⟩,
      trivial⟩

theorem walking_runs_alike_usedFurtherIn :
    (Session.start 0 []).AcceptsAll
        ["fun f(x)\x7b\x7bprint x;\x7d\x7df(true);"] [usedFurtherIn] ∧
      SingleLocals [] [usedFurtherIn] ∧
      (Session.start 0 []).runAllBy (fun _ => .byWalk)
          ["fun f(x)\x7b\x7bprint x;\x7d\x7df(true);"]
        = (Session.start 0 []).runAll
          ["fun f(x)\x7b\x7bprint x;\x7d\x7df(true);"] :=
  ⟨acceptsAll_usedFurtherIn, singleLocals_usedFurtherIn,
    walking_runs_alike 0 [] _ _ acceptsAll_usedFurtherIn
      singleLocals_usedFurtherIn⟩

end Lox
