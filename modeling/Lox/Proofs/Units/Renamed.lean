/-
The names of local variables do not matter. If a variable or a parameter
of a unit gets a name that occurs nowhere in the unit, then the unit is
accepted as before, with the same depths recorded, and whatever the
session has done so far, it prints the same, leaves the same globals and
fails in the same way, except that a fault that shows the variable shows
its new name (`renaming_unobserved`). The parts of the argument:

- With the variable renamed, the unit is a respelling of what it was
  (`Stmt.allRespelled_rename`), so it is bound alike
  (`Stmt.AllRespelled.bindProgram`).
- Respelled programs run alike in lexical memories that go together
  (`runProgram_together`), and the memory of a session goes with itself
  (`Lexical.Session.respelled_self`).
- A session on the machine stays side by side with a lexical session
  (`Scoping.Paired.runAll`), whichever of the two programs it runs.
-/
import Mathlib
import Lox.Proofs.Respelling.Renaming
import Lox.Proofs.Respelling.Runs
import Lox.Proofs.Respelling.Surveys
import Lox.Proofs.Scoping.Found
import Lox.Proofs.Scoping.Sessions

namespace Lox

open List (Forall₂)

/-- The failures look the same, or they are a variable without a value,
shown once by the old name and once by the new one. -/
inductive Failure.Respelled (r : Respelling) : Failure → Failure → Prop
  | same {failure failure' : Failure}
      (h : failure'.mapFn Function.face id
        = failure.mapFn Function.face id) :
      Respelled r failure failure'
  | undefined {node : Option Node} :
      Respelled r (.runtime ⟨.undefined r.old, node⟩)
        (.runtime ⟨.undefined r.new, node⟩)

variable {r : Respelling}

theorem Interruption.Respelled.failure {stop stop' : Interruption}
    (h : stop.Respelled r stop') :
    Failure.Respelled r (.ofInterruption stop) (.ofInterruption stop') := by
  cases h with
  | fault h =>
    rcases h with h | ⟨rfl, rfl⟩
    · refine .same ?_
      simp only [Failure.ofInterruption, Failure.mapFn, h]
    · exact .undefined
  | stackOverflow | unfinished => exact .same rfl
  | strayReturn h =>
    refine .same ?_
    simp only [Failure.ofInterruption, Failure.mapFn, h]

/-- What holds of failures without closures holds of the failures. -/
theorem Failure.Respelled.of_unclosed {failure failure' : Failure}
    (h : Failure.Respelled r (failure.mapFn Function.unclosed id)
      (failure'.mapFn Function.unclosed id)) :
    failure.Respelled r failure' := by
  -- A fault over a name has no value in it, so it is the same without closures.
  have hundefined : ∀ {failure : Failure} {name : String}
      {node : Option Node},
      failure.mapFn Function.unclosed id = .runtime ⟨.undefined name, node⟩ →
        failure = .runtime ⟨.undefined name, node⟩ := by
    intro failure name node h
    cases failure with
    | runtime e =>
      obtain ⟨fault, place⟩ := e
      injection h with h
      injection h with hfault hplace
      rw [Option.map_id] at hplace
      obtain rfl : place = node := hplace
      cases fault <;> cases hfault
      rfl
    | _ => cases h
  generalize hleft : failure.mapFn Function.unclosed id = left at h
  generalize hright : failure'.mapFn Function.unclosed id = right at h
  cases h with
  | same h =>
    rw [← hleft, ← hright, Failure.mapFn_mapFn, Failure.mapFn_mapFn] at h
    exact .same h
  | undefined =>
    rw [hundefined hleft, hundefined hright]
    exact .undefined

-- ======================================================== lexical sessions

namespace Lexical

theorem Memory.respelled_install {μ : Memory}
    (h : Sides.Respelled r ⟨μ, μ⟩) (spec : NativeSpec) :
    Sides.Respelled r ⟨μ.install spec, μ.install spec⟩ :=
  { h with
    globals := forall₂_put (.plain nofun) h.globals
    nextStamp := rfl
    stamps := fun stamp hle => h.stamps stamp (Nat.le_of_succ_le hle) }

theorem Memory.respelled_initial (clock : Clock)
    (natives : List NativeSpec) :
    Sides.Respelled r ⟨.initial clock natives, .initial clock natives⟩ := by
  have hall : ∀ (specs : List NativeSpec) (μ : Memory),
      Sides.Respelled r ⟨μ, μ⟩ →
        Sides.Respelled r ⟨specs.foldl install μ, specs.foldl install μ⟩ := by
    intro specs
    induction specs with
    | nil => exact fun _ h => h
    | cons spec specs ih => exact fun μ h => ih _ (respelled_install h spec)
  exact hall _ _ ⟨.nil, .nil, fun _ _ => ⟨rfl, rfl⟩, rfl, rfl, rfl⟩

namespace Session

/-- From memories that go together, respelled programs leave memories
that go together and are reported alike. -/
theorem runAccepted_respelled (l l' : Session)
    (hw : Sides.Respelled r ⟨l.memory, l'.memory⟩)
    {program program' : List Stmt}
    (h : Stmt.AllRespelled r [] program program') :
    Sides.Respelled r ⟨(l.runAccepted program).1.memory,
        (l'.runAccepted program').1.memory⟩ ∧
      (l'.runAccepted program').2.output
        = (l.runAccepted program).2.output ∧
      Option.Rel (Failure.Respelled r) (l.runAccepted program).2.failure
        (l'.runAccepted program').2.failure := by
  have hrun : Together r ⟨l.memory, l'.memory⟩
      (Lexical.runProgram roundBound nestingRoom program)
      (Lexical.runProgram roundBound nestingRoom program')
      fun _ _ _ => True := runProgram_together hw h
  unfold Together at hrun
  split at hrun
  · next _ μ _ μ' hrun hrun' =>
    obtain ⟨hw₁, -, -⟩ := hrun
    rw [runAccepted_of_ok hrun, runAccepted_of_ok hrun']
    exact ⟨{ hw₁ with output := rfl }, hw₁.output, .none⟩
  · next stop μ stop' μ' hrun hrun' =>
    obtain ⟨hstop, hw₁⟩ := hrun
    rw [runAccepted_of_error hrun, runAccepted_of_error hrun']
    exact ⟨{ hw₁ with output := rfl }, hw₁.output, .some hstop.failure⟩
  · exact hrun.elim

theorem respelled_run {l : Session}
    (h : Sides.Respelled r ⟨l.memory, l.memory⟩) (source : String) :
    Sides.Respelled r ⟨(l.run source).1.memory,
      (l.run source).1.memory⟩ := by
  unfold run
  split
  next read n _ =>
    cases read with
    | error e => exact h
    | ok program =>
      simp only
      cases bindProgram program with
      | error errors => exact h
      | ok uses =>
        have hself : Stmt.AllRespelled r (Scopes.doubled []) program
            program := Stmt.allRespelled_self program
        exact (runAccepted_respelled { l with nextId := n }
          { l with nextId := n } h hself).1

/-- Every memory of a session goes with itself. -/
theorem respelled_self (clock : Clock) (natives : List NativeSpec)
    (sources : List String) :
    let μ := ((Session.start clock natives).runAll sources).1.memory
    Sides.Respelled r ⟨μ, μ⟩ := by
  have hall : ∀ (sources : List String) (l : Session),
      Sides.Respelled r ⟨l.memory, l.memory⟩ →
        Sides.Respelled r ⟨(l.runAll sources).1.memory,
          (l.runAll sources).1.memory⟩ := by
    intro sources
    induction sources with
    | nil => exact fun _ h => h
    | cons source sources ih => exact fun l h => ih _ (respelled_run h source)
  exact hall sources _ (Memory.respelled_initial clock natives)

end Session

end Lexical

/-- Memories that go together have globals that look the same. -/
theorem Sides.Respelled.globals_shown {w : Sides} (h : w.Respelled r) :
    w.right.globals.sorted.shown = w.left.globals.sorted.shown := by
  have hface : w.right.globals.mapFn Function.face
      = w.left.globals.mapFn Function.face := by
    have hglobals := h.globals
    generalize w.left.globals = bs at hglobals
    generalize w.right.globals = bs' at hglobals
    induction hglobals with
    | nil => rfl
    | cons hb _ ih =>
      unfold Bindings.mapFn at ih ⊢
      rw [List.map_cons, List.map_cons, ih, hb.1, hb.2.face]
  rw [← Bindings.shown_mapFn unnoticed_face, ← Bindings.sorted_mapFn, hface,
    Bindings.sorted_mapFn, Bindings.shown_mapFn unnoticed_face]

-- =============================================================== the unit

mutual

theorem Stmt.kind_of_localVariable {d : Declaration} : {nested : Bool} →
    (s : Stmt) → d ∈ s.localVariables nested → d.kind ≠ .fn
  | nested, .varDecl node name _, h => by
      cases nested with
      | false => cases h
      | true =>
        obtain rfl := List.mem_singleton.1 h
        exact nofun
  | _, .funDecl _ _ paramsId params _ body, h => by
      rcases List.mem_append.1 h with h | h
      · obtain ⟨p, -, rfl⟩ := List.mem_map.1 h
        exact nofun
      · exact kind_of_allLocalVariable body h
  | _, .block _ body, h => kind_of_allLocalVariable body h
  | _, .cond _ _ yes none, h => kind_of_localVariable yes h
  | _, .cond _ _ yes (some no), h =>
      (List.mem_append.1 h).elim (kind_of_localVariable yes)
        (kind_of_localVariable no)
  | _, .loop _ _ body, h => kind_of_localVariable body h

theorem Stmt.kind_of_allLocalVariable {d : Declaration} :
    {nested : Bool} → (ss : List Stmt) →
      d ∈ Stmt.allLocalVariables nested ss → d.kind ≠ .fn
  | _, s :: ss, h =>
      (List.mem_append.1 h).elim (kind_of_localVariable s)
        (kind_of_allLocalVariable ss)

end

/-- With a local variable renamed, a program that was accepted is a
respelling of what it was. -/
theorem Session.Accepts.respelled {s : Session} {source : String} {n : Nat}
    {program : List Stmt} {uses : List LocalUse}
    (h : s.Accepts source program uses n) {d : Declaration}
    (hd : d ∈ localVariables program) {name : String}
    (hname : name ∉ Stmt.allNames program) :
    Stmt.AllRespelled ⟨d.name, name⟩ [] program
      (Stmt.renameAll ⟨d, name, Depths.record ∅ uses⟩ [] program) := by
  obtain ⟨rfl, herrors⟩ := bindProgram_eq_ok_iff.1 h.bound
  let R : Renaming := ⟨d, name, Depths.record ∅ (localUses program)⟩
  have hbound : Stmt.AllBound R.table [] program :=
    allBound_record h.numbered.nodup
      (fun _ _ => Std.TreeMap.getElem?_emptyc) herrors
  have hkind : R.declaration.kind ≠ .fn :=
    Stmt.kind_of_allLocalVariable program hd
  have haround : Surroundings.Lacks [] R.newName := nofun
  exact Stmt.allRespelled_rename hkind haround program hbound hname

/-- Two sessions that differ in nothing before they run respelled
programs. -/
theorem Scoping.Ready.respelled {s : Session} {l : Lexical.Session}
    {program program' : List Stmt} {uses uses' : List LocalUse} {n : Nat}
    (h : Ready s l program (s.depths.record uses) n)
    (h' : Ready s l program' (s.depths.record uses') n)
    (hself : Sides.Respelled r ⟨l.memory, l.memory⟩)
    (hprogram : Stmt.AllRespelled r [] program program') :
    let ran := Session.runBound { s with nextId := n } program uses
    let ran' := Session.runBound { s with nextId := n } program' uses'
    ran'.2.output = ran.2.output ∧
      ran'.1.machine.globals.shown = ran.1.machine.globals.shown ∧
      Option.Rel (Failure.Respelled r) ran.2.failure ran'.2.failure := by
  obtain ⟨hpaired, hreport⟩ := h.runBound
  obtain ⟨hpaired', hreport'⟩ := h'.runBound
  obtain ⟨hw, houtput, hfailure⟩ := Lexical.Session.runAccepted_respelled
    { l with nextId := n } { l with nextId := n } hself hprogram
  refine ⟨?_, ?_, ?_⟩
  · rw [hreport, hreport'] at houtput
    exact houtput
  · have hglobals := hw.globals_shown
    have hshown := congrArg Bindings.shown hpaired.globals
    have hshown' := congrArg Bindings.shown hpaired'.globals
    rw [Bindings.shown_mapFn unnoticed_unclosed] at hshown hshown'
    rw [← hshown, ← hshown']
    exact hglobals
  · rw [hreport, hreport'] at hfailure
    unfold Report.mapFn at hfailure
    generalize (Session.runBound { s with nextId := n } program
      uses).2.failure = failure at hfailure ⊢
    generalize (Session.runBound { s with nextId := n } program'
      uses').2.failure = failure' at hfailure ⊢
    cases failure <;> cases failure' <;> cases hfailure
    · exact .none
    · next h => exact .some h.of_unclosed

/-- A variable or a parameter that a unit declares in a local scope may
as well have another name that occurs nowhere in the unit, if the name is
replaced in the declaration and in all uses whose recorded depth leads to
the declaration. The unit is accepted then, with the same depths recorded
at the same nodes in the same order. After any units before, it prints
the same as without the new name, leaves globals that look the same, and
fails in the same way; only where the variable has no value yet, the
fault shows its new name. -/
theorem renaming_unobserved (clock : Clock) (natives : List NativeSpec)
    (sources : List String) (source : String) (program : List Stmt)
    (uses : List LocalUse) (n : Nat)
    (haccepts : ((Session.start clock natives).runAll sources).1.Accepts
      source program uses n)
    (d : Declaration) (hd : d ∈ localVariables program)
    (name : String) (hname : name ∉ Stmt.allNames program) :
    let s := ((Session.start clock natives).runAll sources).1
    let R : Renaming := ⟨d, name, Depths.record ∅ uses⟩
    let program' := Stmt.renameAll R [] program
    localVariables program' = (localVariables program).map R.renamed ∧
    ∃ uses', bindProgram program' = .ok uses' ∧
      uses'.map LocalUse.entry = uses.map LocalUse.entry ∧
      let (after, report) := s.run source
      let (after', report') :=
        Session.runBound { s with nextId := n } program' uses'
      after'.depths = after.depths ∧
      report'.output = report.output ∧
      after'.machine.globals.shown = after.machine.globals.shown ∧
      Option.Rel (Failure.Respelled ⟨d.name, name⟩) report.failure
        report'.failure := by
  intro s R program'
  refine ⟨Stmt.allLocalVariables_rename rfl program, ?_⟩
  obtain ⟨hpaired, -⟩ := (Scoping.paired_start clock natives).runAll sources
  have hrespelled := haccepts.respelled hd hname
  obtain ⟨uses', hbound', hentries⟩ := hrespelled.bindProgram haccepts.bound
  refine ⟨uses', hbound', hentries, ?_⟩
  rw [haccepts.run]
  have hids : Numbered s.nextId (Stmt.idsAll program') n := by
    rw [hrespelled.ids]
    exact haccepts.numbered
  have hready := hpaired.ready haccepts
  have hready' := hpaired.ready_of hids
    (hrespelled.wellFormed haccepts.formed) hbound'
  exact ⟨Depths.record_congr hentries _, hready.respelled hready'
    (Lexical.Session.respelled_self clock natives sources) hrespelled⟩

theorem renaming_unobserved_ownInitializer :
    let source := "{var b;var a=a=b;}"
    let node : Node := ⟨4, 1, 14, 13⟩
    let uses : List LocalUse :=
      [⟨⟨3, 1, 16, 15⟩, "b", .read, 0⟩, ⟨node, "a", .write, 0⟩]
    let d : Declaration := ⟨.var, 5, "a"⟩
    let program' :=
      Stmt.renameAll ⟨d, "c", Depths.record ∅ uses⟩ [] ownInitializer
    (d ∈ localVariables ownInitializer ∧
        "c" ∉ Stmt.allNames ownInitializer) ∧
      ∃ uses', bindProgram program' = .ok uses' ∧
        uses'.map LocalUse.entry = uses.map LocalUse.entry ∧
        let (after, report) := (Session.start 0 []).run source
        let (after', report') :=
          Session.runBound { Session.start 0 [] with nextId := 7 } program'
            uses'
        after'.machine.globals.shown = after.machine.globals.shown ∧
        report'.output = report.output ∧
        report.failure = some (.runtime ⟨.undefined "a", some node⟩) ∧
        report'.failure = some (.runtime ⟨.undefined "c", some node⟩) := by
  intro source node uses d program'
  have hd : d ∈ localVariables ownInitializer := by decide
  have hname : "c" ∉ Stmt.allNames ownInitializer := by decide
  obtain ⟨-, uses', hbound, hentries, -, houtput, hglobals, -⟩ :=
    renaming_unobserved 0 [] [] source ownInitializer uses 7
      accepts_ownInitializer d hd "c" hname
  have hbound' : bindProgram program'
      = .ok [⟨⟨3, 1, 16, 15⟩, "b", .read, 0⟩, ⟨node, "c", .write, 0⟩] := by
    cbv
  have huses := hbound.symm.trans hbound'
  cases huses
  have hfailure : ((Session.start 0 []).run source).2.failure
      = some (.runtime ⟨.undefined "a", some node⟩) := by
    cbv
  have hfailure' : (Session.runBound { Session.start 0 [] with nextId := 7 }
      program' [⟨⟨3, 1, 16, 15⟩, "b", .read, 0⟩,
        ⟨node, "c", .write, 0⟩]).2.failure
      = some (.runtime ⟨.undefined "c", some node⟩) := by
    cbv
  exact ⟨⟨hd, hname⟩, _, hbound, hentries, hglobals, houtput, hfailure,
    hfailure'⟩

end Lox
