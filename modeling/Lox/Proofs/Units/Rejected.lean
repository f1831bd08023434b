/-
Units that are rejected. If a text is no program, or something is wrong
with its names, nothing of it is run, and the session only goes on with a
greater number for the next node. So the other units of the session do
the same without it (`rejected_units_are_invisible`). The parts of the
argument:

- A text is rejected or accepted whatever number its first node gets, and
  if it is accepted, it is the same program up to numbers
  (`rejected_or_accepted`).
- A lexical run looks at the number of no node, so it does the same if
  the programs and the functions in memory are the same up to numbers
  (`runAccepted_alike`).
- A session on the machine stays side by side with a lexical session
  (`Paired.run`), with a rejected unit or without it.
- As many depths are recorded for a program as for the same program with
  greater numbers (`Depths.size_record_later`).
-/
import Mathlib
import Lox.Proofs.Scoping.Carried
import Lox.Proofs.Scoping.Replaced
import Lox.Proofs.Scoping.Sessions

namespace Lox

/-- The node without its number. -/
abbrev Node.unnumbered : Node → Node := .renumber fun _ => 0

/-- The function without the numbers of the nodes in its body. -/
abbrev Function.unnumbered (f : Function) : Function :=
  f.mapNodes .unnumbered

-- ===================================================== numbers not looked at

namespace Lexical

variable {μ μ' : Memory}

/-- The two memories are the same up to the numbers of nodes. -/
def Memory.Alike (μ μ' : Memory) : Prop :=
  μ.carry .unnumbered "" = μ'.carry .unnumbered ""

theorem Memory.Alike.output (h : μ.Alike μ') : μ.output = μ'.output := by
  have houtput := congrArg Memory.output h
  simpa [carry] using houtput

/-- They still are when what was printed is taken away. -/
theorem Memory.Alike.rest (h : μ.Alike μ') :
    Memory.Alike { μ with output := "" } { μ' with output := "" } := by
  have hrest : ∀ ν : Memory,
      Memory.carry .unnumbered "" { ν with output := "" }
        = { ν.carry .unnumbered "" with output := "" ++ "" } := fun _ => rfl
  rw [Alike] at h ⊢
  rw [hrest, hrest, h]

/-- From such memories, programs that are the same up to numbers leave
such memories and are reported alike. -/
theorem Session.runAccepted_alike (l l' : Session)
    {program program' : List Stmt} (hmemory : l.memory.Alike l'.memory)
    (hprogram : Stmt.mapAll .unnumbered program
      = Stmt.mapAll .unnumbered program') :
    (l.runAccepted program).1.memory.Alike
        (l'.runAccepted program').1.memory ∧
      (l.runAccepted program).2.mapFn Function.unnumbered .unnumbered
        = (l'.runAccepted program').2.mapFn Function.unnumbered
            .unnumbered := by
  -- Without the numbers there is one program and one memory, so there is one
  -- run.
  have hrun := carries_runProgram .unnumbered "" roundBound nestingRoom
    program l.memory
  have hrun' := carries_runProgram .unnumbered "" roundBound nestingRoom
    program' l'.memory
  rw [hprogram, hmemory, hrun'] at hrun
  cases hresult : runProgram roundBound nestingRoom program l.memory with
  | ok u μ =>
    cases hresult' : runProgram roundBound nestingRoom program'
        l'.memory with
    | error stop μ' =>
      rw [hresult, hresult'] at hrun
      cases hrun
    | ok u' μ' =>
      rw [hresult, hresult'] at hrun
      injection hrun with _ hμ
      have halike : μ.Alike μ' := hμ.symm
      rw [runAccepted_of_ok hresult, runAccepted_of_ok hresult',
        halike.output]
      exact ⟨halike.rest, rfl⟩
  | error stop μ =>
    cases hresult' : runProgram roundBound nestingRoom program'
        l'.memory with
    | ok u' μ' =>
      rw [hresult, hresult'] at hrun
      cases hrun
    | error stop' μ' =>
      rw [hresult, hresult'] at hrun
      injection hrun with hstop hμ
      have halike : μ.Alike μ' := hμ.symm
      rw [runAccepted_of_error hresult, runAccepted_of_error hresult',
        halike.output]
      have hfailure := congrArg Failure.ofInterruption hstop.symm
      rw [Failure.ofInterruption_mapFn, Failure.ofInterruption_mapFn]
        at hfailure
      exact ⟨halike.rest, congrArg (Report.mk μ'.output ∘ some) hfailure⟩

end Lexical

-- ===================================================== rejected or accepted

/-- Whether the unit was rejected, so that nothing of it was run. -/
def Failure.rejects : Failure → Bool
  | text _ | binding _ => true
  | runtime _ | stackOverflow | unfinished | strayReturn _ => false

/-- Every session rejects a text with the same failure, or every session
accepts it for the same program, up to the numbers of the nodes. -/
theorem rejected_or_accepted (source : String) :
    (∃ (failure : Failure) (n : Nat), failure.rejects = true ∧
      ∀ s : Session, s.run source
        = ({ s with nextId := n + s.nextId }, ⟨"", some failure⟩)) ∨
    ∃ (program : List Stmt) (uses : List LocalUse) (n : Nat),
      ∀ s : Session, s.Accepts source (Stmt.allLater s.nextId program)
        (uses.map (·.mapNode (.later s.nextId))) (n + s.nextId) := by
  -- Every session reads what a new one reads, with later numbers.
  have hlater : ∀ s : Session, readProgram source s.nextId
      = ((readProgram source 0).1.map (Stmt.allLater s.nextId),
          (readProgram source 0).2 + s.nextId) := fun s => by
    rw [← readProgram_later, Nat.zero_add]
  cases hread : readProgram source 0 with
  | mk read n =>
    simp only [hread] at hlater
    cases read with
    | error e =>
      refine .inl ⟨.text e, n, rfl, fun s => ?_⟩
      unfold Session.run
      rw [hlater s]
      rfl
    | ok program =>
      have hbound : ∀ s : Session,
          bindProgram (Stmt.allLater s.nextId program)
            = (bindProgram program).map
                (List.map (·.mapNode (.later s.nextId))) := fun s =>
        bindProgram_of_keepsPlaces (keepsPlaces_renumber _) program
      cases hbind : bindProgram program with
      | error errors =>
        refine .inl ⟨.binding errors, n, rfl, fun s => ?_⟩
        unfold Session.run
        rw [hlater s]
        simp only [Except.map, hbound s, hbind]
      | ok uses =>
        refine .inr ⟨program, uses, n, fun s => ⟨hlater s, ?_⟩⟩
        rw [hbound s, hbind]
        rfl

/-- A unit that is run was not rejected. -/
theorem Session.Accepts.not_rejects {s : Session} {source : String}
    {program : List Stmt} {uses : List LocalUse} {n : Nat}
    (h : s.Accepts source program uses n) {failure : Failure}
    (hfailure : (s.run source).2.failure = some failure) :
    failure.rejects = false := by
  rw [h.run] at hfailure
  obtain ⟨stop, -, rfl⟩ := Option.map_eq_some_iff.1 hfailure
  cases stop <;> rfl

-- ================================================================ answers

/-- What a session shows after a unit. -/
structure Answer where
  report : Report
  globals : Bindings
  /-- How many entries the table has. -/
  entries : Nat

/-- The answer of a session to a unit. -/
def Session.answer (s : Session) (source : String) : Answer :=
  let (s, report) := s.run source
  ⟨report, s.machine.globals, s.depths.size⟩

/-- The answers to units that are run one after another. -/
def Session.answers (s : Session) : List String → List Answer
  | [] => []
  | source :: sources =>
    s.answer source :: (s.run source).1.answers sources

namespace Answer

/-- Whether the unit was rejected. -/
def rejected (a : Answer) : Bool := a.report.failure.any Failure.rejects

/-- The answer without the closures of its functions and the numbers of
nodes. -/
def unnumbered (a : Answer) : Answer :=
  ⟨a.report.mapFn (Function.unnumbered ∘ Function.unclosed) .unnumbered,
    a.globals.mapFn (Function.unnumbered ∘ Function.unclosed), a.entries⟩

/-- What is seen of an answer. -/
def shown (a : Answer) :
    (String × Option (List String × Option Position)) ×
      List (String × String) × Nat :=
  (a.report.shown, a.globals.shown, a.entries)

/-- Closures and numbers are not seen. -/
theorem shown_unnumbered (a : Answer) : a.unnumbered.shown = a.shown := by
  have hunnoticed : Unnoticed (Function.unnumbered ∘ Function.unclosed) :=
    ⟨fun _ => rfl, fun _ => rfl, fun _ => rfl⟩
  unfold unnumbered shown
  simp only
  rw [Report.shown_of_keepsPlaces hunnoticed (keepsPlaces_renumber _),
    Bindings.shown_mapFn hunnoticed]

end Answer

-- ========================================================= with and without

/-- Two sessions after the same units, except that some which were
rejected are left out of the second. -/
structure Twins (s s' : Session) : Prop where
  beside : ∃ l l' : Lexical.Session, Scoping.Paired s l ∧
    Scoping.Paired s' l' ∧ l.memory.Alike l'.memory
  entries : s.depths.size = s'.depths.size

namespace Twins

variable {s s' : Session}

theorem refl {l : Lexical.Session} (h : Scoping.Paired s l) : Twins s s :=
  ⟨⟨l, l, h, h, rfl⟩, rfl⟩

theorem globals (h : Twins s s') :
    s.machine.globals.mapFn (Function.unnumbered ∘ Function.unclosed)
      = s'.machine.globals.mapFn
          (Function.unnumbered ∘ Function.unclosed) := by
  obtain ⟨⟨l, l', hl, hl', halike⟩, -⟩ := h
  have hglobals : l.memory.globals.mapFn Function.unnumbered
      = l'.memory.globals.mapFn Function.unnumbered :=
    congrArg Lexical.Memory.globals halike
  rw [← Bindings.mapFn_mapFn, ← Bindings.mapFn_mapFn, ← hl.globals,
    ← hl'.globals, Lexical.Session.globals, Lexical.Session.globals,
    ← Bindings.sorted_mapFn, ← Bindings.sorted_mapFn, hglobals]

/-- A greater number for the next node changes nothing. -/
theorem numbered (h : Twins s s') {n n' : Nat} (hle : s.nextId ≤ n)
    (hle' : s'.nextId ≤ n') :
    Twins { s with nextId := n } { s' with nextId := n' } := by
  obtain ⟨⟨l, l', hl, hl', halike⟩, hentries⟩ := h
  exact ⟨⟨_, _, hl.numbered hle, hl'.numbered hle', halike⟩, hentries⟩

/-- The second session may leave out a unit that the first rejects. -/
theorem left_out (h : Twins s s') {source : String} {failure : Failure}
    (hfailure : (s.run source).2.failure = some failure)
    (hrejects : failure.rejects = true) : Twins (s.run source).1 s' := by
  rcases rejected_or_accepted source with
    ⟨_, n, -, hrun⟩ | ⟨_, _, _, haccepts⟩
  · rw [hrun s]
    exact h.numbered (Nat.le_add_left _ n) (Nat.le_refl _)
  · rw [(haccepts s).not_rejects hfailure] at hrejects
    cases hrejects

/-- A unit that both run is reported alike, and they stay twins. -/
theorem run (h : Twins s s') (source : String) :
    Twins (s.run source).1 (s'.run source).1 ∧
      (s.run source).2.mapFn (Function.unnumbered ∘ Function.unclosed)
          .unnumbered
        = (s'.run source).2.mapFn (Function.unnumbered ∘ Function.unclosed)
            .unnumbered := by
  rcases rejected_or_accepted source with
    ⟨failure, n, -, hrun⟩ | ⟨program, uses, n, haccepts⟩
  · rw [hrun s, hrun s']
    exact ⟨h.numbered (Nat.le_add_left _ n) (Nat.le_add_left _ n), rfl⟩
  · obtain ⟨⟨l, l', hl, hl', halike⟩, hentries⟩ := h
    obtain ⟨hpaired, hreport⟩ := hl.run source
    obtain ⟨hpaired', hreport'⟩ := hl'.run source
    have hprogram : Stmt.mapAll .unnumbered (Stmt.allLater s.nextId program)
        = Stmt.mapAll .unnumbered (Stmt.allLater s'.nextId program) := by
      rw [Stmt.mapAll_renumber, Stmt.mapAll_renumber]
      rfl
    have hsame := Lexical.Session.runAccepted_alike
      { l with nextId := n + s.nextId } { l' with nextId := n + s'.nextId }
      halike hprogram
    rw [← (haccepts s).runLexically hl.nextId,
      ← (haccepts s').runLexically hl'.nextId] at hsame
    refine ⟨⟨⟨_, _, hpaired, hpaired', hsame.1⟩, ?_⟩, ?_⟩
    · rw [(haccepts s).run, (haccepts s').run, Session.depths_runBound,
        Session.depths_runBound]
      refine Depths.size_record_later uses hentries fun u _ => ?_
      have hfresh : ∀ {t : Session} {m : Lexical.Session},
          Scoping.Paired t m →
            t.depths.contains (u.node.id + t.nextId) = false := fun ht => by
        rw [Std.TreeMap.contains_eq_isSome_getElem?,
          ht.fresh _ (Nat.le_add_left _ _)]
        rfl
      rw [hfresh hl, hfresh hl']
    · have hreports := hsame.2
      rw [hreport, hreport', Report.mapFn_mapFn, Report.mapFn_mapFn]
        at hreports
      exact hreports

/-- A unit that both run is answered alike. -/
theorem answer (h : Twins s s') (source : String) :
    (s'.answer source).unnumbered = (s.answer source).unnumbered := by
  obtain ⟨htwins, hreport⟩ := h.run source
  simp only [Session.answer, Answer.unnumbered, hreport, htwins.globals,
    htwins.entries]

end Twins

/-- The answers to the units that are kept are the same, if all others
are rejected. -/
theorem Twins.answers {s s' : Session} (h : Twins s s')
    (units : List (String × Bool))
    (hrejected : ∀ p ∈ units.zip (s.answers (units.map Prod.fst)),
      p.1.2 = false → p.2.rejected = true) :
    (s'.answers ((units.filter Prod.snd).map Prod.fst)).map
        Answer.unnumbered
      = ((units.zip (s.answers (units.map Prod.fst))).filter (·.1.2)).map
          (·.2.unnumbered) := by
  induction units generalizing s s' with
  | nil => rfl
  | cons unit units ih =>
    obtain ⟨source, kept⟩ := unit
    rw [List.map_cons, Session.answers, List.zip_cons_cons,
      List.forall_mem_cons] at hrejected
    obtain ⟨hfirst, hothers⟩ := hrejected
    cases kept with
    | false =>
      obtain ⟨failure, hfailure, hrejects⟩ :=
        (Option.any_eq_true _ _).1 (hfirst rfl)
      exact ih (h.left_out hfailure hrejects) hothers
    | true =>
      obtain ⟨htwins, -⟩ := h.run source
      exact congrArg₂ List.cons (h.answer source) (ih htwins hothers)

/-- A unit that is rejected is not seen by the others. If from the units
of a session some are left out that are rejected, each of the others is
answered as before: the same is printed, it fails in the same way and at
the same place or not at all, the globals are the same afterwards, up to
closures and the numbers of nodes, and so is the number of entries in the
table. -/
theorem rejected_units_are_invisible (clock : Clock)
    (natives : List NativeSpec) (units : List (String × Bool)) :
    let s := Session.start clock natives
    let answered := units.zip (s.answers (units.map Prod.fst))
    (∀ p ∈ answered, p.1.2 = false → p.2.rejected = true) →
    let before := (answered.filter (·.1.2)).map Prod.snd
    let alone := s.answers ((units.filter Prod.snd).map Prod.fst)
    alone.map Answer.shown = before.map Answer.shown ∧
      alone.map Answer.unnumbered = before.map Answer.unnumbered := by
  intro s answered hrejected before alone
  have htwins : Twins s s := .refl (Scoping.paired_start clock natives)
  have hunnumbered : alone.map Answer.unnumbered
      = before.map Answer.unnumbered := by
    rw [List.map_map]
    exact htwins.answers units hrejected
  have hshown : ∀ answers : List Answer, answers.map Answer.shown
      = (answers.map Answer.unnumbered).map Answer.shown := fun answers => by
    rw [List.map_map]
    exact List.map_congr_left fun a _ => a.shown_unnumbered.symm
  refine ⟨?_, hunnumbered⟩
  rw [hshown alone, hshown before, hunnumbered]

theorem rejected_units_are_invisible_strayReturn :
    let s := Session.start 0 []
    let second :=
      (s.run "\x7breturn;\x7d").1.answer "\x7bvar a;print a;\x7d-nil;"
    (s.answer "\x7breturn;\x7d").rejected = true ∧
      second.entries = 1 ∧
      second.report.output = "nil\n" ∧
      second.report.failure.any Failure.rejects = false ∧
      (s.answer "\x7bvar a;print a;\x7d-nil;").unnumbered
        = second.unnumbered := by
  have hrejected :
      ((Session.start 0 []).answer "\x7breturn;\x7d").rejected = true := by
    cbv
  obtain ⟨-, hunnumbered⟩ := rejected_units_are_invisible 0 []
    [("\x7breturn;\x7d", false), ("\x7bvar a;print a;\x7d-nil;", true)]
    (List.forall_mem_cons.2 ⟨fun _ => hrejected,
      List.forall_mem_singleton.2 fun h => by cases h⟩)
  refine ⟨hrejected, ?_, ?_, ?_, ?_⟩
  · cbv
  · cbv
  · cbv
  · exact (List.cons_eq_cons.1 hunnumbered).1

end Lox
