/-
Static scoping of whole sessions. A session on the machine and a lexical
session that run the same units stay side by side (`Paired`): after each
unit the two moments are related again, by the table that the session
has by then, and the reports are the same. A unit that is rejected
changes nothing but the number of the next node, and one that fails
leaves the moments related as they were when it failed.
-/
import Lox.Proofs.Reading.Numbering
import Lox.Proofs.Reading.Renumbered
import Lox.Proofs.Reading.Scan
import Lox.Proofs.Reading.Words
import Lox.Proofs.Scoping.Agreement
import Lox.Proofs.Scoping.Table

namespace Lox

-- ============================================================= the start

theorem Store.lookup_initial (scope : Nat) (name : String) :
    Store.initial.lookup scope name = none := by
  cases scope with
  | zero => rfl
  | succ scope => rfl

/-- What holds of an empty store, and still does when another native is
defined, holds of the store that a session starts with. -/
theorem Machine.initial_store {Q : Store → Prop}
    {natives : List NativeSpec} (hinitial : Q .initial)
    (hinstall : ∀ (s : Store) (spec : NativeSpec) (native : Native),
      spec ∈ clockSpec :: natives → Q s →
        Q (s.define .globals spec.name (.native native)))
    (clock : Clock) : Q (initial clock natives).store := by
  have hall : ∀ (specs : List NativeSpec) (m : Machine),
      (∀ spec ∈ specs, spec ∈ clockSpec :: natives) → Q m.store →
        Q (specs.foldl install m).store := by
    intro specs
    induction specs with
    | nil => exact fun m _ h => h
    | cons spec specs ih =>
      intro m hspecs h
      rw [List.forall_mem_cons] at hspecs
      exact ih _ hspecs.2 (hinstall _ spec _ hspecs.1 h)
  exact hall _ _ (fun _ hspec => hspec) hinitial

/-- A session starts with natives alone. -/
theorem Machine.initial_plain (clock : Clock) (natives : List NativeSpec) :
    (initial clock natives).store.All fun v => ∀ f, v ≠ .function f := by
  refine initial_store (fun scope name v hv => ?_)
    (fun _ _ _ _ h => h.bind nofun) clock
  rw [Store.lookup_initial] at hv
  cases hv

-- ============================================================ units alone

/-- The session takes a text for this program with these local uses. -/
structure Session.Accepts (s : Session) (source : String)
    (program : List Stmt) (uses : List LocalUse) (nextId : Nat) : Prop where
  read : readProgram source s.nextId = (.ok program, nextId)
  bound : bindProgram program = .ok uses

section Outcome

variable {s : Session} {program : List Stmt} {uses : List LocalUse}

/-- A text that is accepted is run. -/
theorem Session.Accepts.run {source : String} {n : Nat}
    (h : s.Accepts source program uses n) :
    s.run source = Session.runBound { s with nextId := n } program uses := by
  unfold Session.run
  rw [h.read]
  simp only [h.bound]

/-- The nodes of a text that is accepted are numbered from the next
number on. -/
theorem Session.Accepts.numbered {source : String} {n : Nat}
    (h : s.Accepts source program uses n) :
    Numbered s.nextId (Stmt.idsAll program) n :=
  numbered_readProgram h.read

theorem Session.Accepts.formed {source : String} {n : Nat}
    (h : s.Accepts source program uses n) : Stmt.AllWellFormed program := by
  obtain ⟨_, _, -, -, hs⟩ := readProgram_eq_ok_iff.1 h.read
  exact hs.shaped

@[simp] theorem Session.depths_runBound :
    (s.runBound program uses).1.depths = s.depths.record uses := rfl

@[simp] theorem Session.nextId_runBound :
    (s.runBound program uses).1.nextId = s.nextId := rfl

/-- What a program leaves in the store, however it ends. -/
theorem Session.store_runBound (s : Session) (program : List Stmt)
    (uses : List LocalUse) :
    (s.runBound program uses).1.machine.store
      = (Run.finalMachine (runProgram
          ⟨.byDepth (s.depths.record uses), roundBound⟩ nestingRoom program)
          s.machine).store := by
  unfold runBound Machine.interpret Run.finalMachine
  split <;> next h => simp only [h]

/-- What a program leaves that ran to its end. -/
theorem Session.runBound_of_ok {m : Machine}
    (h : runProgram ⟨.byDepth (s.depths.record uses), roundBound⟩
      nestingRoom program s.machine = .ok () m) :
    s.runBound program uses
      = ({ s with
            machine := { m with env := .globals, output := "" }
            depths := s.depths.record uses },
        ⟨m.output, none⟩) := by
  unfold runBound Machine.interpret
  simp only [h]
  rfl

/-- What a program leaves that was interrupted. -/
theorem Session.runBound_of_error {m : Machine} {stop : Interruption}
    (h : runProgram ⟨.byDepth (s.depths.record uses), roundBound⟩
      nestingRoom program s.machine = .error stop m) :
    s.runBound program uses
      = ({ s with
            machine := { m with env := .globals, output := "" }
            depths := s.depths.record uses },
        ⟨m.output, some (.ofInterruption stop)⟩) := by
  unfold runBound Machine.interpret
  simp only [h]
  rfl

/-- A unit that fails was rejected, or accepted and then interrupted. -/
theorem Session.failure_of_run {source : String} {failure : Failure}
    (h : (s.run source).2.failure = some failure) :
    (∃ e, failure = .text e) ∨ (∃ errors, failure = .binding errors) ∨
      ∃ program uses n stop m, s.Accepts source program uses n ∧
        runProgram ⟨.byDepth (s.depths.record uses), roundBound⟩ nestingRoom
          program s.machine = .error stop m ∧
        failure = .ofInterruption stop := by
  rcases hread : readProgram source s.nextId with ⟨e | program, n⟩
  · unfold run at h
    simp only [hread] at h
    cases h
    exact .inl ⟨e, rfl⟩
  cases hbind : bindProgram program with
  | error errors =>
    unfold run at h
    simp only [hread, hbind] at h
    cases h
    exact .inr (.inl ⟨errors, rfl⟩)
  | ok uses =>
    have haccepts : s.Accepts source program uses n := ⟨hread, hbind⟩
    rw [haccepts.run] at h
    cases hrun : runProgram ⟨.byDepth (s.depths.record uses), roundBound⟩
        nestingRoom program s.machine with
    | ok _ m =>
      rw [runBound_of_ok (s := { s with nextId := n }) hrun] at h
      cases h
    | error stop m =>
      rw [runBound_of_error (s := { s with nextId := n }) hrun] at h
      cases h
      exact .inr (.inr ⟨program, uses, n, stop, m, haccepts, hrun, rfl⟩)

variable {l : Lexical.Session}

/-- What the session takes, the lexical session takes at the same
number. -/
theorem Session.Accepts.runLexically {source : String} {n : Nat}
    (h : s.Accepts source program uses n) (hnext : l.nextId = s.nextId) :
    l.run source = Lexical.Session.runAccepted { l with nextId := n }
      program := by
  unfold Lexical.Session.run
  rw [hnext, h.read]
  simp only [h.bound]

theorem Lexical.Session.runAccepted_of_ok {μ : Lexical.Memory}
    (h : Lexical.runProgram roundBound nestingRoom program l.memory
      = .ok () μ) :
    l.runAccepted program
      = ({ l with memory := { μ with output := "" } }, ⟨μ.output, none⟩) := by
  unfold runAccepted
  rw [h]

theorem Lexical.Session.runAccepted_of_error {μ : Lexical.Memory}
    {stop : Interruption}
    (h : Lexical.runProgram roundBound nestingRoom program l.memory
      = .error stop μ) :
    l.runAccepted program
      = ({ l with memory := { μ with output := "" } },
        ⟨μ.output, some (.ofInterruption stop)⟩) := by
  unfold runAccepted
  rw [h]

end Outcome

namespace Scoping

open Lexical (Memory)

-- ========================================================= other tables

section Retable

variable {table table' : Table} {limit limit' : Nat} {w : World}

/-- A function stays faithful under a table that says the same about the nodes
below the limit. -/
theorem Faithful.retable {f : Function} (h : Faithful table limit w f)
    (hle : limit ≤ limit') (hsame : ∀ id, id < limit → table id = table' id) :
    Faithful table' limit' w f := by
  obtain ⟨scopes, locals, hlocals, hshows, hparams, hplaced⟩ := h
  exact ⟨scopes, locals, hlocals, hshows, hparams, hplaced.retable hle hsame⟩

/-- Another table will do if it is the same at all nodes so far. -/
theorem Related.retable (h : Related table limit w) (hle : limit ≤ limit')
    (hsame : ∀ id, id < limit → table id = table' id) :
    Related table' limit' w :=
  { h with
    faithful := fun scope name v hv f hf =>
      (h.faithful scope name v hv f hf).retable hle hsame }

/-- What was printed is taken away, and the globals are current. -/
theorem Related.rest (h : Related table limit w) :
    Related table limit ⟨{ w.machine with env := .globals, output := "" },
      { w.memory with output := "" }, w.places⟩ :=
  { h with output := rfl }

end Retable

-- ========================================================= side by side

/-- Two sessions after the same units. -/
structure Paired (s : Session) (l : Lexical.Session) : Prop where
  related : ∃ places,
    Related (tableOf s.depths) s.nextId ⟨s.machine, l.memory, places⟩
  ground : s.machine.env = .globals
  output : s.machine.output = ""
  nextId : l.nextId = s.nextId
  /-- The table has nothing at nodes to come. -/
  fresh : ∀ id, s.nextId ≤ id → s.depths[id]? = none

-- ------------------------------------------------------------ the start

theorem related_install {table : Table} {limit : Nat} {m : Machine}
    {μ : Memory} {places : List Place} (spec : NativeSpec)
    (h : Related table limit ⟨m, μ, places⟩) :
    Related table limit ⟨m.install spec, μ.install spec, places⟩ := by
  let native : Native := ⟨m.nextStamp, spec.name, spec.arity, spec.action⟩
  have hstamp : μ.nextStamp = m.nextStamp := h.nextStamp
  have hput : Related table limit
      (World.assign ⟨m, μ, places⟩ none 0 spec.name (.native native)) :=
    h.assignGlobal nofun
  have hglobals : (μ.install spec).globals
      = μ.globals.put spec.name (.native native) := by
    rw [Memory.install, hstamp]
  exact { hput with
    globals := hglobals.trans hput.globals
    stamps := fun stamp hle => h.stamps stamp (Nat.le_of_succ_le hle)
    nextStamp := congrArg (· + 1) hstamp }

/-- Two fresh machines are related, with no place in use but the outermost. -/
theorem related_initial {table : Table} {limit : Nat} (clock : Clock) :
    Related table limit
      ⟨⟨.initial, .globals, "", 0, clock⟩, ⟨[], [], [], "", 0, clock⟩, []⟩ where
  size := Nat.zero_lt_one
  nodup := .nil
  bound := by simp [Store.lookup_initial]
  length := rfl
  cells := nofun
  globals := rfl
  faithful := by simp [Store.lookup_initial]
  stamps := fun _ _ => rfl
  nextStamp := rfl
  output := rfl
  clock := rfl

/-- To install a native moves nothing. -/
theorem foldl_install (natives : List NativeSpec) (m : Machine) :
    (natives.foldl Machine.install m).env = m.env ∧
      (natives.foldl Machine.install m).output = m.output := by
  induction natives generalizing m with
  | nil => exact ⟨rfl, rfl⟩
  | cons spec natives ih => exact ih (m.install spec)

theorem paired_start (clock : Clock) (natives : List NativeSpec) :
    Paired (.start clock natives) (.start clock natives) := by
  have hrelated : ∀ (specs : List NativeSpec) (m : Machine) (μ : Memory),
      Related (tableOf ∅) 1 ⟨m, μ, []⟩ →
        Related (tableOf ∅) 1
          ⟨specs.foldl Machine.install m, specs.foldl Memory.install μ,
            []⟩ := by
    intro specs
    induction specs with
    | nil => exact fun _ _ h => h
    | cons spec specs ih => exact fun m μ h => ih _ _ (related_install spec h)
  obtain ⟨hground, houtput⟩ := foldl_install (clockSpec :: natives)
    ⟨.initial, .globals, "", 0, clock⟩
  exact ⟨⟨[], hrelated _ _ _ (related_initial clock)⟩, hground, houtput, rfl,
    fun _ _ => Std.TreeMap.getElem?_emptyc⟩

-- --------------------------------------------------------------- a unit

section Unit

variable {s : Session} {l : Lexical.Session}

/-- What a reading has numbered is known to the sessions, whether it was
accepted or not. -/
theorem Paired.numbered (h : Paired s l) {n : Nat} (hle : s.nextId ≤ n) :
    Paired { s with nextId := n } { l with nextId := n } := by
  obtain ⟨places, hw⟩ := h.related
  exact ⟨⟨places, hw.retable hle fun _ _ => rfl⟩, h.ground, h.output, rfl,
    fun id hid => h.fresh id (Nat.le_trans hle hid)⟩

/-- The moment before a program runs that was read from the next number
on: the table has what is noted of the program, and all else is as
before. -/
structure Ready (s : Session) (l : Lexical.Session) (program : List Stmt)
    (depths : Depths) (n : Nat) : Prop where
  related : ∃ places,
    Related (tableOf depths) n ⟨s.machine, l.memory, places⟩
  ground : s.machine.env = .globals
  placed : Stmt.AllPlaced (tableOf depths) n [] program
  fresh : ∀ id, n ≤ id → depths[id]? = none

/-- A program is ready to run if its nodes are numbered from the next
number on and its names are bound. -/
theorem Paired.ready_of (h : Paired s l) {n : Nat} {program : List Stmt}
    {uses : List LocalUse}
    (hids : Numbered s.nextId (Stmt.idsAll program) n)
    (hformed : Stmt.AllWellFormed program)
    (hbound : bindProgram program = .ok uses) :
    Ready s l program (s.depths.record uses) n := by
  obtain ⟨places, hw⟩ := h.related
  obtain ⟨rfl, hbinds⟩ := bindProgram_eq_ok_iff.1 hbound
  have hwithin := within_localUses hids.nodup hbinds
  refine ⟨⟨places, hw.retable hids.le fun id hid => ?_⟩, h.ground,
    ⟨?_, hformed, fun id hmem => (hids.bounds id hmem).2⟩, fun id hid => ?_⟩
  · refine (Depths.getElem?_record_of_absent hwithin ?_ s.depths).symm
    exact fun hmem => absurd (hids.bounds id hmem).1 (Nat.not_le.2 hid)
  · exact allBound_record hids.nodup
      (fun id hmem => h.fresh id (hids.bounds id hmem).1) hbinds
  · rw [Depths.getElem?_record_of_absent hwithin]
    · exact h.fresh id (Nat.le_trans hids.le hid)
    · exact fun hmem => absurd (hids.bounds id hmem).2 (Nat.not_lt.2 hid)

/-- A program that is accepted is ready to run. -/
theorem Paired.ready (h : Paired s l) {source : String} {n : Nat}
    {program : List Stmt} {uses : List LocalUse}
    (haccepts : s.Accepts source program uses n) :
    Ready s l program (s.depths.record uses) n :=
  h.ready_of haccepts.numbered haccepts.formed haccepts.bound

/-- A program that is ready runs alike in both sessions. -/
theorem Ready.runBound {program : List Stmt} {uses : List LocalUse} {n : Nat}
    (h : Ready s l program (s.depths.record uses) n) :
    Paired (Session.runBound { s with nextId := n } program uses).1
      (Lexical.Session.runAccepted { l with nextId := n } program).1 ∧
    (Lexical.Session.runAccepted { l with nextId := n } program).2
      = (Session.runBound { s with nextId := n } program uses).2.mapFn
          Function.unclosed id := by
  obtain ⟨⟨places, hw⟩, hground, hplaced, hfresh⟩ := h
  have hagrees : Simulates (tableOf (s.depths.record uses)) n true
      ⟨s.machine, l.memory, places⟩
      (runProgram (settingOf (s.depths.record uses) roundBound) nestingRoom
        program)
      (Lexical.runProgram roundBound nestingRoom program) fun _ _ _ => True :=
    runProgram_agrees hw hground hplaced
  unfold Simulates at hagrees
  split at hagrees
  · next m _ μ hrun hrun' =>
    obtain ⟨places', hw', -, -⟩ := hagrees
    rw [Session.runBound_of_ok (s := { s with nextId := n }) hrun,
      Lexical.Session.runAccepted_of_ok (l := { l with nextId := n }) hrun']
    have houtput : μ.output = m.output := hw'.output
    rw [houtput]
    exact ⟨⟨⟨places', hw'.rest⟩, rfl, rfl, rfl, hfresh⟩, rfl⟩
  · next stop m _ μ hrun hrun' =>
    obtain ⟨rfl, places', hw', -⟩ := hagrees
    rw [Session.runBound_of_error (s := { s with nextId := n }) hrun,
      Lexical.Session.runAccepted_of_error (l := { l with nextId := n }) hrun',
      Failure.ofInterruption_mapFn]
    have houtput : μ.output = m.output := hw'.output
    rw [houtput]
    exact ⟨⟨⟨places', hw'.rest⟩, rfl, rfl, rfl, hfresh⟩, rfl⟩
  · exact hagrees.elim

end Unit

/-- Whatever a unit is, it leaves the sessions side by side, and is
reported alike. -/
theorem Paired.run {s : Session} {l : Lexical.Session} (h : Paired s l)
    (source : String) :
    Paired (s.run source).1 (l.run source).1 ∧
      (l.run source).2 = (s.run source).2.mapFn Function.unclosed id := by
  have hle := le_nextId_readProgram source s.nextId
  unfold Session.run Lexical.Session.run
  rw [h.nextId]
  cases hread : readProgram source s.nextId with
  | mk read n =>
    rw [hread] at hle
    cases read with
    | error e => exact ⟨h.numbered hle, rfl⟩
    | ok program =>
      simp only
      cases hbind : bindProgram program with
      | error errors => exact ⟨h.numbered hle, rfl⟩
      | ok uses => exact (h.ready ⟨hread, hbind⟩).runBound

/-- Paired sessions report alike over any list of sources, and are paired
behind it. -/
theorem Paired.runAll {s : Session} {l : Lexical.Session} (h : Paired s l)
    (sources : List String) :
    Paired (s.runAll sources).1 (l.runAll sources).1 ∧
      (l.runAll sources).2
        = (s.runAll sources).2.map (·.mapFn Function.unclosed id) := by
  induction sources generalizing s l with
  | nil => exact ⟨h, rfl⟩
  | cons source sources ih =>
    obtain ⟨hfirst, hreport⟩ := h.run source
    obtain ⟨hothers, hreports⟩ := ih hfirst
    exact ⟨hothers, List.cons_eq_cons.2 ⟨hreport, hreports⟩⟩

/-- Side by side, the globals are the same. -/
theorem Paired.globals {s : Session} {l : Lexical.Session}
    (h : Paired s l) :
    l.globals = s.machine.globals.mapFn Function.unclosed := by
  obtain ⟨places, hw⟩ := h.related
  have hglobals : l.memory.globals
      = (s.machine.store.bindings 0).mapFn Function.unclosed := hw.globals
  rw [Lexical.Session.globals, hglobals, Bindings.sorted_mapFn]
  rfl

end Scoping

-- ======================================================= static scoping

/-- However many units a session has run, whether they were accepted,
rejected or failed half way, a lexical session that ran the same units
has printed the same and failed in the same way, with the same words at
the same nodes, and has the same globals. What differs is that its
functions have no closures. -/
theorem session_runs_lexically (clock : Clock) (natives : List NativeSpec)
    (sources : List String) :
    let (s, reports) := (Session.start clock natives).runAll sources
    let (l, reports') := (Lexical.Session.start clock natives).runAll sources
    reports' = reports.map (·.mapFn Function.unclosed id) ∧
      reports'.map Report.shown = reports.map Report.shown ∧
      l.globals = s.machine.globals.mapFn Function.unclosed := by
  obtain ⟨hpaired, hreports⟩ :=
    (Scoping.paired_start clock natives).runAll sources
  refine ⟨hreports, ?_, hpaired.globals⟩
  rw [hreports, List.map_map]
  exact List.map_congr_left fun r _ => r.shown_mapFn unnoticed_unclosed

end Lox
