/-
The table over the life of a session. Whatever the units are and however
they end, all nodes of all trees that were ever read have different
numbers, each greater than those of the nodes below it; the table has an
entry for each use of a name that a local scope binds, in the units that
were accepted, and no others; and a unit adds entries at greater numbers
than all before it and leaves the entries that are there alone
(`entries_are_for_good`).

# What is kept

`Recorded programs` says it of a session that has read these programs.
A unit keeps it in one of three ways (`Session.run_cases`): its text is
no program and only numbers are used up, or its names are rejected and
the program is read for nothing, or it is accepted, and what is noted of
it comes on top of the table before it runs. Its nodes are new, so
nothing of it meets an entry from before.
-/
import Lox.Proofs.Reading.Descending
import Lox.Proofs.Scoping.Noted
import Lox.Proofs.Units.Rejected

namespace Lox

-- ============================================================ statements

/-- The programs that the units were read as, those included whose names
were then rejected. -/
def Session.programs (s : Session) : List String → List (List Stmt)
  | [] => []
  | source :: sources =>
    let others := (s.run source).1.programs sources
    match (readProgram source s.nextId).1 with
    | .ok program => program :: others
    | .error _ => others

/-- The program has this use of a name, and a local scope so far out
binds it. -/
def BindsLocally (program : List Stmt) (id depth : Nat) : Prop :=
  ∃ u ∈ Stmt.allNameUses [] program,
    u.node.id = id ∧ u.scopes.depth? u.name = some depth

-- ================================================================= the table

/-- What is recorded at new nodes, each of its own, comes on top. -/
theorem Depths.getElem?_record_eq_some (depths : Depths)
    {uses : List LocalUse} (hnodup : (uses.map (·.node.id)).Nodup)
    (hfresh : ∀ u ∈ uses, depths[u.node.id]? = none) {id depth : Nat} :
    (depths.record uses)[id]? = some depth ↔
      depths[id]? = some depth ∨
        ∃ u ∈ uses, u.node.id = id ∧ u.depth = depth := by
  induction uses generalizing depths with
  | nil => simp [record]
  | cons u uses ih =>
    rw [List.map_cons, List.nodup_cons] at hnodup
    rw [List.forall_mem_cons] at hfresh
    -- The entry for the first use is at none of the other nodes.
    have hfresh' : ∀ v ∈ uses,
        (depths.insert u.node.id u.depth)[v.node.id]? = none := by
      intro v hv
      have hne : u.node.id ≠ v.node.id := fun heq =>
        hnodup.1 (heq ▸ List.mem_map_of_mem hv)
      rw [Std.TreeMap.getElem?_insert, if_neg (by simpa using hne)]
      exact hfresh.2 v hv
    rw [record, List.foldl_cons, ← record, ih _ hnodup.2 hfresh',
      Std.TreeMap.getElem?_insert]
    simp only [Nat.compare_eq_eq]
    by_cases hid : u.node.id = id
    · subst hid
      simp [hfresh.1]
    · simp [hid]

/-- What a program notes that is accepted is what it binds locally. -/
theorem noted_iff_bindsLocally {program : List Stmt} {uses : List LocalUse}
    (h : bindProgram program = .ok uses) {id depth : Nat} :
    (∃ u ∈ uses, u.node.id = id ∧ u.depth = depth) ↔
      BindsLocally program id depth := by
  rw [bindProgram_eq_notesOf h]
  constructor
  · rintro ⟨use, huse, rfl, rfl⟩
    obtain ⟨u, hu, hlocal⟩ := List.mem_filterMap.1 huse
    obtain ⟨depth, hdepth, rfl⟩ := Option.map_eq_some_iff.1 hlocal
    exact ⟨u, hu, rfl, hdepth⟩
  · rintro ⟨u, hu, rfl, hdepth⟩
    refine ⟨⟨u.node, u.name, u.kind, depth⟩, ?_, rfl, rfl⟩
    refine List.mem_filterMap.2 ⟨u, hu, ?_⟩
    rw [NameUse.local?, hdepth]
    rfl

/-- What a program binds locally it binds at nodes of its own. -/
theorem BindsLocally.mem_ids {program : List Stmt} {id depth : Nat}
    (h : BindsLocally program id depth) : id ∈ Stmt.idsAll program := by
  obtain ⟨u, hu, rfl, -⟩ := h
  exact (Stmt.subperm_idsAll program).subset (List.mem_map_of_mem hu)

-- ================================================================== one unit

/-- What becomes of a unit: its text is no program, or its names are
rejected, or it is accepted. -/
theorem Session.run_cases (s : Session) (source : String) :
    (∃ e n, readProgram source s.nextId = (.error e, n) ∧
      s.run source = ({ s with nextId := n }, ⟨"", some (.text e)⟩)) ∨
    (∃ program errors n, readProgram source s.nextId = (.ok program, n) ∧
      bindProgram program = .error errors ∧
      s.run source = ({ s with nextId := n }, ⟨"", some (.binding errors)⟩)) ∨
    ∃ program uses n, s.Accepts source program uses n := by
  rcases hread : readProgram source s.nextId with ⟨e | program, n⟩
  · refine .inl ⟨e, n, rfl, ?_⟩
    unfold run
    simp only [hread]
  · cases hbind : bindProgram program with
    | error errors =>
      refine .inr (.inl ⟨program, errors, n, rfl, hbind, ?_⟩)
      unfold run
      simp only [hread, hbind]
    | ok uses => exact .inr (.inr ⟨program, uses, n, hread, hbind⟩)

/-- The session has read these programs, and its table and the number of
the next node are what they have left. -/
structure Recorded (programs : List (List Stmt)) (s : Session) : Prop where
  numbered : Numbered 1 (programs.flatMap Stmt.idsAll) s.nextId
  descending : ∀ program ∈ programs, Stmt.AllDescending program
  entries : ∀ id depth, s.depths[id]? = some depth ↔
    ∃ program ∈ programs, (∃ uses, bindProgram program = .ok uses) ∧
      BindsLocally program id depth

namespace Recorded

variable {programs : List (List Stmt)} {s : Session}

/-- The entries are at numbers that were given. -/
theorem lt_nextId (h : Recorded programs s) {id depth : Nat}
    (hentry : s.depths[id]? = some depth) : id < s.nextId := by
  obtain ⟨program, hprogram, -, hbinds⟩ := (h.entries id depth).1 hentry
  exact (h.numbered.bounds id
    (List.mem_flatMap.2 ⟨program, hprogram, hbinds.mem_ids⟩)).2

/-- Where no number was given yet there is no entry. -/
theorem fresh (h : Recorded programs s) {id : Nat} (hid : s.nextId ≤ id) :
    s.depths[id]? = none := by
  cases hentry : s.depths[id]? with
  | none => rfl
  | some depth => exact absurd (h.lt_nextId hentry) (Nat.not_lt.2 hid)

/-- A unit that is no program uses numbers up. -/
theorem unread (h : Recorded programs s) {n : Nat} (hle : s.nextId ≤ n) :
    Recorded programs { s with nextId := n } where
  numbered := by
    have hnumbered := h.numbered.append (.nil hle)
    rwa [List.append_nil] at hnumbered
  descending := h.descending
  entries := h.entries

/-- The nodes of one more program are new. -/
theorem numbered_read (h : Recorded programs s) {source : String}
    {program : List Stmt} {n : Nat}
    (hread : readProgram source s.nextId = (.ok program, n)) :
    Numbered 1 ((programs ++ [program]).flatMap Stmt.idsAll) n := by
  rw [List.flatMap_append, List.flatMap_singleton]
  exact h.numbered.append (numbered_readProgram hread)

theorem descending_read (h : Recorded programs s) {source : String}
    {program : List Stmt} {n : Nat}
    (hread : readProgram source s.nextId = (.ok program, n)) :
    ∀ program' ∈ programs ++ [program], Stmt.AllDescending program' := by
  intro program' hmem
  rcases List.mem_append.1 hmem with hmem | hmem
  · exact h.descending program' hmem
  · rw [List.mem_singleton.1 hmem]
    exact readProgram_descending hread

/-- A program whose names are rejected is read for nothing. -/
theorem rejected (h : Recorded programs s) {source : String}
    {program : List Stmt} {errors : Diagnostics BindingError} {n : Nat}
    (hread : readProgram source s.nextId = (.ok program, n))
    (hbind : bindProgram program = .error errors) :
    Recorded (programs ++ [program]) { s with nextId := n } where
  numbered := h.numbered_read hread
  descending := h.descending_read hread
  entries id depth := by
    simp [h.entries, or_and_right, exists_or, hbind]

/-- What is noted of a program that is accepted comes on top, however it
ends. -/
theorem accepted (h : Recorded programs s) {source : String}
    {program : List Stmt} {uses : List LocalUse} {n : Nat}
    (haccepts : s.Accepts source program uses n) :
    Recorded (programs ++ [program]) (s.run source).1 where
  numbered := by
    rw [haccepts.run]
    exact h.numbered_read haccepts.read
  descending := h.descending_read haccepts.read
  entries id depth := by
    obtain ⟨rfl, -⟩ := bindProgram_eq_ok_iff.1 haccepts.bound
    have hids := numbered_readProgram haccepts.read
    have hnew : ∀ u ∈ localUses program, s.depths[u.node.id]? = none :=
      fun u hu => h.fresh (hids.bounds _ ((localUses_subperm program).subset
        (List.mem_map_of_mem hu))).1
    rw [haccepts.run, Session.depths_runBound,
      Depths.getElem?_record_eq_some _ (nodup_localUses hids.nodup) hnew,
      h.entries, noted_iff_bindsLocally haccepts.bound]
    simp [or_and_right, exists_or, haccepts.bound]

/-- A unit is read as one more program or as none. -/
theorem run (h : Recorded programs s) (source : String) :
    Recorded (programs ++ s.programs [source]) (s.run source).1 := by
  have hle := le_nextId_readProgram source s.nextId
  rcases s.run_cases source with ⟨e, n, hread, hrun⟩
    | ⟨program, errors, n, hread, hbind, hrun⟩ | ⟨program, uses, n, haccepts⟩
  · rw [hread] at hle
    simp only [Session.programs, hread, List.append_nil, hrun]
    exact h.unread hle
  · simp only [Session.programs, hread, hrun]
    exact h.rejected hread hbind
  · simp only [Session.programs, haccepts.read]
    exact h.accepted haccepts

/-- So do units one after another. -/
theorem runAll (h : Recorded programs s) (sources : List String) :
    Recorded (programs ++ s.programs sources) (s.runAll sources).1 := by
  induction sources generalizing programs s with
  | nil => simpa [Session.programs, Session.runAll] using h
  | cons source sources ih =>
    have hone := ih (h.run source)
    rw [List.append_assoc] at hone
    have hprograms : s.programs (source :: sources)
        = s.programs [source] ++ (s.run source).1.programs sources := by
      simp only [Session.programs]
      cases (readProgram source s.nextId).1 <;> rfl
    rw [hprograms]
    exact hone

end Recorded

theorem recorded_start (clock : Clock) (natives : List NativeSpec) :
    Recorded [] (Session.start clock natives) where
  numbered := .nil (Nat.le_refl 1)
  descending := nofun
  entries id depth := by simp [Session.start]

/-- The second session has the entries of the first, and its others are
at greater numbers. -/
structure Session.Adds (s s' : Session) : Prop where
  keeps : ∀ id depth : Nat,
    s.depths[id]? = some depth → s'.depths[id]? = some depth
  greater : ∀ new ∈ s'.depths, new ∉ s.depths → ∀ old ∈ s.depths, old < new

/-- The nodes of the next program are new. -/
theorem Session.le_of_mem_programs {s : Session} {source : String}
    {program : List Stmt} (h : program ∈ s.programs [source]) :
    ∀ id ∈ Stmt.idsAll program, s.nextId ≤ id := by
  intro id hid
  rcases hread : readProgram source s.nextId with ⟨e | program', n⟩
  · simp [programs, hread] at h
  · obtain rfl : program = program' := by simpa [programs, hread] using h
    exact ((numbered_readProgram hread).bounds id hid).1

theorem Recorded.adds {programs : List (List Stmt)} {s : Session}
    (h : Recorded programs s) (source : String) :
    s.Adds (s.run source).1 := by
  have h' := h.run source
  constructor
  · intro id depth hentry
    obtain ⟨program, hmem, hbinds⟩ := (h.entries id depth).1 hentry
    exact (h'.entries id depth).2
      ⟨program, List.mem_append_left _ hmem, hbinds⟩
  -- An entry that was not there is at a node of this unit, with a number that
  -- is new.
  · intro new hnew hold old hmem
    obtain ⟨depth, hentry⟩ := Option.isSome_iff_exists.1
      (Std.TreeMap.mem_iff_isSome_getElem?.1 hnew)
    obtain ⟨depth', hentry'⟩ := Option.isSome_iff_exists.1
      (Std.TreeMap.mem_iff_isSome_getElem?.1 hmem)
    obtain ⟨program, hprogram, hbound, hbinds⟩ :=
      (h'.entries new depth).1 hentry
    rcases List.mem_append.1 hprogram with hprogram | hprogram
    · have hbefore : s.depths[new]? = some depth :=
        (h.entries new depth).2 ⟨program, hprogram, hbound, hbinds⟩
      refine absurd (Std.TreeMap.mem_iff_isSome_getElem?.2 ?_) hold
      rw [hbefore]
      rfl
    · exact Nat.lt_of_lt_of_le (h.lt_nextId hentry')
        (Session.le_of_mem_programs hprogram new hbinds.mem_ids)

/-- The table over the life of a session. All nodes of all trees that
were read have different numbers, each greater than those below it; no
node is noted twice; the table has an entry for each use that a local
scope binds in a program that was accepted, and no others. Another unit
adds entries at greater numbers than all before and changes none; it adds
none if it is rejected, and its own if it is accepted, however it
ends. -/
theorem entries_are_for_good (clock : Clock) (natives : List NativeSpec)
    (sources : List String) :
    let start := Session.start clock natives
    let s := (start.runAll sources).1
    let programs := start.programs sources
    (programs.flatMap Stmt.idsAll).Nodup ∧
      (∀ program ∈ programs, Stmt.AllDescending program) ∧
      (∀ program ∈ programs, ((localUses program).map (·.node.id)).Nodup) ∧
      (∀ id depth, s.depths[id]? = some depth ↔
        ∃ program ∈ programs, (∃ uses, bindProgram program = .ok uses) ∧
          BindsLocally program id depth) ∧
      ∀ source : String, s.Adds (s.run source).1 ∧
        ((s.run source).2.failure.any Failure.rejects = true →
          (s.run source).1.depths = s.depths) ∧
        ∀ program uses n, s.Accepts source program uses n →
          ∀ u ∈ uses, (s.run source).1.depths[u.node.id]? = some u.depth := by
  intro start s programs
  have h : Recorded programs s :=
    (recorded_start clock natives).runAll sources
  refine ⟨h.numbered.nodup, h.descending, fun program hmem => ?_, h.entries,
    fun source => ⟨h.adds source, fun hrejects => ?_,
      fun program uses n haccepts u hu => ?_⟩⟩
  · exact nodup_localUses
      ((List.nodup_flatMap.1 h.numbered.nodup).1 program hmem)
  · rcases s.run_cases source with ⟨e, n, -, hrun⟩
      | ⟨_, errors, n, -, -, hrun⟩ | ⟨program, uses, n, haccepts⟩
    · rw [hrun]
    · rw [hrun]
    · obtain ⟨failure, hfailure, hrejects⟩ :=
        (Option.any_eq_true _ _).1 hrejects
      rw [haccepts.not_rejects hfailure] at hrejects
      cases hrejects
  · refine ((h.accepted haccepts).entries _ _).2
      ⟨program, by simp, ⟨uses, haccepts.bound⟩, ?_⟩
    exact (noted_iff_bindsLocally haccepts.bound).1 ⟨u, hu, rfl, rfl⟩

end Lox
