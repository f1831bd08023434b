/-
What a program notes, said of the text of the program. A use is noted
with the number of scopes between it and the nearest scope around it
that declares the name before the use, and if no scope does, it is not
noted (`bindProgram_nearest`). The notes are in the order of the uses.

`Answers` goes along the walk through a program: each use that is met
has its scopes in the survey, and they are shown by what was met before.
-/
import Lox.Proofs.Scoping.Occurrences
import Mathlib.Data.List.Nodup

namespace Lox

-- ============================================================ along the walk

/-- The use of a name that is met, if it is one. -/
def Occurrence.use? (o : Occurrence) : Option (UseKind × Node × String) :=
  match o.event with
  | .used kind node name => some (kind, node, name)
  | _ => none

/-- The use alone. -/
def NameUse.key (u : NameUse) : UseKind × Node × String :=
  (u.kind, u.node, u.name)

/-- The use alone. -/
def LocalUse.key (u : LocalUse) : UseKind × Node × String :=
  (u.kind, u.node, u.name)

/-- These are the uses that are met, in order, each with lists of the
names that were declared before it in the scopes around. -/
inductive Answers : List Occurrence → List Occurrence → List NameUse → Prop
  | nil {before : List Occurrence} : Answers before [] []
  | use {before os : List Occurrence} {uses : List NameUse} {kind : UseKind}
      {node : Node} {name : String} {spot : Spot} {scopes : Scopes}
      (shown : Shown before spot.scopes scopes)
      (rest : Answers (before ++ [⟨.used kind node name, spot⟩]) os uses) :
      Answers before (⟨.used kind node name, spot⟩ :: os)
        (⟨node, name, kind, scopes⟩ :: uses)
  | pass {before os : List Occurrence} {uses : List NameUse} {o : Occurrence}
      (other : o.use? = none) (rest : Answers (before ++ [o]) os uses) :
      Answers before (o :: os) uses

namespace Answers

variable {before as bs os : List Occurrence} {us vs uses : List NameUse}
  {spot : Spot} {scopes : Scopes}

theorem append (ha : Answers before as us)
    (hb : Answers (before ++ as) bs vs) :
    Answers before (as ++ bs) (us ++ vs) := by
  induction ha with
  | nil => simpa using hb
  | use shown _ ih => exact .use shown (ih (by simpa using hb))
  | pass other _ ih => exact .pass other (ih (by simpa using hb))

theorem single {kind : UseKind} {node : Node} {name : String}
    (shown : Shown before spot.scopes scopes) :
    Answers before [⟨.used kind node name, spot⟩]
      [⟨node, name, kind, scopes⟩] :=
  .use shown .nil

/-- Declarations are passed. -/
theorem declared (names : List Name) :
    Answers before (names.map (⟨.declared ·, spot⟩)) [] := by
  induction names generalizing before with
  | nil => exact .nil
  | cons name names ih => exact .pass rfl ih

/-- No use is left out, and none is added. -/
theorem keys (h : Answers before os uses) :
    uses.map NameUse.key = os.filterMap Occurrence.use? := by
  induction h with
  | nil => rfl
  | use _ _ ih =>
    rw [List.map_cons, ih, List.filterMap_cons]
    rfl
  | pass other _ ih => rw [ih, List.filterMap_cons, other]

/-- The scopes of a use tell what was met before it. -/
theorem shown_of_split (h : Answers before os uses) {kind : UseKind}
    {node : Node} {name : String} {front back : List Occurrence}
    (hos : os = front ++ ⟨.used kind node name, spot⟩ :: back) :
    ∃ scopes, ⟨node, name, kind, scopes⟩ ∈ uses ∧
      Shown (before ++ front) spot.scopes scopes := by
  induction h generalizing front with
  | nil => simp at hos
  | use shown _ ih =>
    cases front with
    | nil =>
      obtain ⟨⟨⟨rfl, rfl, rfl⟩, rfl⟩, -⟩ := by simpa using hos
      exact ⟨_, List.mem_cons_self, by simpa using shown⟩
    | cons o front =>
      obtain ⟨rfl, hrest⟩ := List.cons.inj hos
      obtain ⟨scopes, hmem, hshown⟩ := ih hrest
      exact ⟨scopes, .tail _ hmem, by simpa using hshown⟩
  | pass other _ ih =>
    cases front with
    | nil =>
      obtain ⟨rfl, -⟩ := List.cons.inj hos
      cases other
    | cons o front =>
      obtain ⟨rfl, hrest⟩ := List.cons.inj hos
      obtain ⟨scopes, hmem, hshown⟩ := ih hrest
      exact ⟨scopes, hmem, by simpa using hshown⟩

end Answers

-- ================================================================== trees

section Trees

variable {before : List Occurrence} {spot : Spot} {scopes : Scopes}

mutual

/-- The scopes around an expression are right for all of it. -/
theorem Expr.answers : {before : List Occurrence} → (e : Expr) →
    Shown before spot.scopes scopes →
      Answers before (e.occurrences spot) (e.nameUses scopes)
  | _, .literal _ _, _ => .nil
  | _, .var _ _, h => .single h
  | _, .assign _ _ value, h =>
      (value.answers h).append (.single (h.beyond value.not_declared))
  | _, .group _ inner, h => inner.answers h
  | _, .unary _ _ operand, h => operand.answers h
  | _, .binary _ _ left right, h | _, .logical _ _ left right, h =>
      (left.answers h).append (right.answers (h.beyond left.not_declared))
  | _, .call _ _ callee args, h =>
      (callee.answers h).append
        (answers_all args (h.beyond callee.not_declared))

/-- The same for some expressions. -/
theorem Expr.answers_all : {before : List Occurrence} → (es : List Expr) →
    Shown before spot.scopes scopes →
      Answers before (Expr.allOccurrences spot es)
        (Expr.allNameUses scopes es)
  | _, [], _ => .nil
  | _, e :: es, h =>
      (e.answers h).append (answers_all es (h.beyond e.not_declared))

end

theorem Expr.answers_of (e : Option Expr)
    (h : Shown before spot.scopes scopes) :
    Answers before (Expr.occurrencesOf spot e)
      (Expr.nameUsesOf scopes e) := by
  cases e with
  | none => exact .nil
  | some e => exact e.answers h

mutual

/-- From a point of the walk, the survey of a statement has the right
scopes at every use. -/
theorem Stmt.answers : {before : List Occurrence} → {spot : Spot} →
    {scopes : Scopes} → (s : Stmt) → s.WellFormed → s.ids.Nodup →
      Reached before spot scopes s.ids →
        Answers before (s.occurrences spot) (s.nameUses scopes)
  | _, _, _, .expr _ e, _, _, h | _, _, _, .print _ e, _, _, h =>
      e.answers h.shown
  | _, spot, _, .varDecl _ name init, _, _, h =>
      .pass rfl (Expr.answers_of init (h.declare name).shown)
  | _, _, _, .funDecl _ _ _ params _ body, hformed, hnodup, h => by
      obtain ⟨-, hbody, hnodup⟩ := h.function hnodup
      exact .pass rfl ((Answers.declared params).append
        (answers_all body hformed hnodup hbody))
  | _, _, _, .block _ body, hformed, hnodup, h => by
      obtain ⟨hbody, hnodup⟩ := h.block hnodup
      exact answers_all body hformed hnodup hbody
  | _, _, _, .cond node test yes none, ⟨_, _, hformed⟩, hnodup, h => by
      obtain ⟨hyes, hnodup⟩ := Reached.tested h hnodup
      rw [occurrences, nameUses]
      exact (test.answers h.shown).append (yes.answers hformed hnodup hyes)
  | _, _, _, .cond node test yes (some no),
      ⟨_, ⟨hdeclares, hformed⟩, _, hformed'⟩, hnodup, h => by
      rw [ids, List.append_assoc] at h hnodup
      obtain ⟨hbranches, hnodup⟩ := Reached.tested h hnodup
      obtain ⟨⟨hyes, hnodupYes⟩, hno, hnodupNo⟩ :=
        hbranches.branches hformed hdeclares hnodup
      rw [occurrences, nameUses]
      exact (test.answers h.shown).append
        ((yes.answers hformed hnodupYes hyes).append
          (no.answers hformed' hnodupNo hno))
  | _, _, _, .loop node test body, ⟨_, _, hformed⟩, hnodup, h => by
      obtain ⟨hbody, hnodup⟩ := Reached.tested h hnodup
      rw [occurrences, nameUses]
      exact (test.answers h.shown).append (body.answers hformed hnodup hbody)
  | _, _, _, .ret node value, _, _, h =>
      .pass rfl (Expr.answers_of value (h.returned node).shown)

/-- The same for some statements. -/
theorem Stmt.answers_all : {before : List Occurrence} → {spot : Spot} →
    {scopes : Scopes} → (ss : List Stmt) → AllWellFormed ss →
      (idsAll ss).Nodup → Reached before spot scopes (idsAll ss) →
        Answers before (allOccurrences spot ss) (allNameUses scopes ss)
  | _, _, _, [], _, _, _ => .nil
  | _, _, _, s :: ss, hformed, hnodup, h => by
      obtain ⟨⟨hs, hnodupHead⟩, hss, hnodupTail⟩ := h.split hformed.1 hnodup
      exact (s.answers hformed.1 hnodupHead hs).append
        (answers_all ss hformed.2 hnodupTail hss)

end

end Trees

-- =============================================================== programs

/-- The notes of some uses are in the order of the uses. -/
theorem keys_notesOf (uses : List NameUse) :
    ((notesOf uses).map LocalUse.key).Sublist (uses.map NameUse.key) := by
  induction uses with
  | nil => exact .slnil
  | cons u uses ih =>
    rw [notesOf, List.filterMap_cons]
    cases hlocal : u.local? with
    | none => exact ih.cons _
    | some use =>
      obtain ⟨depth, -, rfl⟩ := Option.map_eq_some_iff.1 hlocal
      exact ih.cons_cons _

/-- Of uses at different nodes, one is noted as its scopes say. -/
theorem mem_notesOf {uses : List NameUse} (hnodup : (NameUse.ids uses).Nodup)
    {u : NameUse} (hu : u ∈ uses) {depth : Nat} :
    ⟨u.node, u.name, u.kind, depth⟩ ∈ notesOf uses
      ↔ u.scopes.depth? u.name = some depth := by
  rw [notesOf, List.mem_filterMap]
  constructor
  · rintro ⟨u', hu', hlocal⟩
    obtain ⟨depth', hdepth, heq⟩ := Option.map_eq_some_iff.1 hlocal
    injection heq with hnode hname hkind hdepth'
    obtain rfl : u' = u :=
      List.inj_on_of_nodup_map hnodup hu' hu (by rw [hnode])
    rw [← hdepth', hdepth]
  · exact fun hdepth => ⟨u, hu, by simp [NameUse.local?, hdepth]⟩

/-- In a program that was read and has no errors, a use is noted with a
depth exactly if that is how many scopes out the nearest scope is that
declares the name before the use. The notes are in the order in which the
uses are met, and no node has two of them. -/
theorem bindProgram_nearest {ts : List Token} {eof : Token} {n n' : Nat}
    {program : List Stmt} {uses : List LocalUse}
    (heof : eof.kind = .endOfText) (hts : ∀ t ∈ ts, t.kind ≠ .endOfText)
    (hparse : parse (ts ++ [eof]) n = ⟨.ok program, n'⟩)
    (hbind : bindProgram program = .ok uses) :
    (∀ before spot kind node name after,
      Stmt.allOccurrences .top program
          = before ++ ⟨.used kind node name, spot⟩ :: after →
        ∀ depth, ⟨node, name, kind, depth⟩ ∈ uses
          ↔ NearestDeclaring before spot.scopes name depth) ∧
    (uses.map LocalUse.key).Sublist
      ((Stmt.allOccurrences .top program).filterMap Occurrence.use?) ∧
    (uses.map (·.node.id)).Nodup := by
  obtain ⟨hformed, hnodup⟩ := formed_of_parse heof hts hparse
  obtain rfl := bindProgram_eq_notesOf hbind
  have hanswers := Stmt.answers_all program hformed hnodup (.start _)
  have hids : (NameUse.ids (Stmt.allNameUses [] program)).Nodup := by
    have hids : (NameUse.ids (Stmt.allNameUses [] program)).Subperm
        (Stmt.idsAll program) := Stmt.subperm_idsAll program
    obtain ⟨ids, hperm, hsublist⟩ := hids
    exact hperm.nodup_iff.1 (hnodup.sublist hsublist)
  refine ⟨fun before spot kind node name after hsplit depth => ?_, ?_, ?_⟩
  · obtain ⟨scopes, hmem, hshown⟩ := hanswers.shown_of_split hsplit
    rw [mem_notesOf hids hmem]
    exact hshown.depth?_eq_some_iff
  · rw [← hanswers.keys]
    exact keys_notesOf _
  · exact hids.sublist (notesOf_sublist _)

/-- Read and assigned one block further in, a variable is one scope away;
a name that nothing declares is not noted. -/
theorem bindProgram_nearest_furtherIn :
    let token (kind : TokenKind) (lexeme : String) : Token :=
      ⟨kind, lexeme, .start⟩
    let tokens := [token .leftBrace "", token .kwVar "var",
      token .identifier "a", token .semicolon ";", token .leftBrace "",
      token .kwPrint "print", token .identifier "a", token .semicolon ";",
      token .identifier "a", token .equal "=", token .identifier "b",
      token .semicolon ";", token .rightBrace "", token .rightBrace ""]
    let node (id : Nat) : Node := ⟨id, .start⟩
    let program : List Stmt := [.block (node 8)
      [.varDecl (node 0) ⟨"a", .start⟩ none, .block (node 7)
        [.print (node 2) (.var (node 1) "a"),
          .expr (node 6) (.assign (node 5) "a" (.var (node 4) "b"))]]]
    let met := Stmt.allOccurrences .top program
    parse (tokens ++ [token .endOfText ""]) 0 = ⟨.ok program, 9⟩ ∧
      bindProgram program
        = .ok [⟨node 1, "a", .read, 1⟩, ⟨node 5, "a", .write, 1⟩] ∧
      NearestDeclaring (met.take 1) [7, 8] "a" 1 ∧
      ∀ depth, ¬ NearestDeclaring (met.take 2) [7, 8] "b" depth := by
  intro token tokens node program met
  have hnearest := (@bindProgram_nearest tokens (token .endOfText "") 0 9
    program [⟨node 1, "a", .read, 1⟩, ⟨node 5, "a", .write, 1⟩]
    rfl (by decide) rfl rfl).1
  refine ⟨rfl, rfl, ?_, fun depth h => ?_⟩
  · exact (hnearest (met.take 1) _ .read (node 1) "a" (met.drop 2) rfl 1).1
      (by decide)
  · have hnoted := (hnearest (met.take 2) _ .read (node 4) "b" (met.drop 3)
      rfl depth).2 h
    simp at hnoted

end Lox
