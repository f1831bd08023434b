/-
Bound names in a tree with other nodes. Which declaration a name means
depends on no node: if the nodes of a program are replaced, the same
uses are noted, at the new nodes (`bindProgram_mapNodes`), and the same
errors are found, if the replacement keeps places
(`bindProgram_of_keepsPlaces`). What is recorded goes by identities: if
they are kept, so are the depths (`Depths.record_mapNode`), and if they
are all greater by so many, there are as many entries
(`Depths.size_record_later`).
-/
import Mathlib.Data.List.Basic
import Lox.Proofs.Reading.Renumbered
import Lox.Proofs.Scoping.Table
import Lox.Proofs.Tree.Nodes

namespace Lox

/-- The use at another node. -/
def LocalUse.mapNode (f : Node → Node) (use : LocalUse) : LocalUse :=
  { use with node := f use.node }

-- ================================================================ surveys

namespace Survey

variable {ν ε α β : Type} {h : ν → ν} {alike : ε → ε → Prop}

/-- The two surveys have found the same up to what their notes show, or
have stopped behind such notes at errors that are alike. -/
inductive Mirrors (h : ν → ν) (alike : ε → ε → Prop) :
    Survey ν ε α → Survey ν ε α → Prop where
  | found (notes : List ν) (a : α) :
      Mirrors h alike ⟨notes, .ok a⟩ ⟨notes.map h, .ok a⟩
  | stopped (notes : List ν) {e e' : ε} :
      alike e e' →
      Mirrors h alike ⟨notes, .error e⟩ ⟨notes.map h, .error e'⟩

namespace Mirrors

/-- Surveys of nothing mirror each other. -/
theorem done (a : α) :
    Mirrors h alike (done a : Survey ν ε α) (.done a) :=
  .found [] a

/-- A note is mirrored by what it shows. -/
theorem note (n : ν) :
    Mirrors h alike (note n : Survey ν ε Unit) (.note (h n)) :=
  .found [n] ()

/-- Errors that are alike are mirrored by each other. -/
theorem stop {e e' : ε} (he : alike e e') :
    Mirrors h alike (stop e : Survey ν ε α) (.stop e') :=
  .stopped [] he

/-- Surveys one behind the other: the second finds the same names declared,
for these have no nodes. -/
theorem bind {s s' : Survey ν ε α} {f f' : α → Survey ν ε β}
    (hs : Mirrors h alike s s') (hf : ∀ a, Mirrors h alike (f a) (f' a)) :
    Mirrors h alike (s >>= f) (s' >>= f') := by
  cases hs with
  | stopped notes he => exact .stopped notes he
  | found notes a =>
    show Mirrors h alike ⟨notes ++ (f a).notes, (f a).result⟩
      ⟨notes.map h ++ (f' a).notes, (f' a).result⟩
    have hrest := hf a
    generalize f a = rest at hrest
    generalize f' a = rest' at hrest
    cases hrest with
    | found others b =>
      rw [← List.map_append]
      exact .found _ b
    | stopped others he =>
      rw [← List.map_append]
      exact .stopped _ he

/-- Whether they end or stop, two such surveys have noted the same. -/
theorem notes {s s' : Survey ν ε α} (hs : Mirrors h alike s s') :
    s'.notes = s.notes.map h := by
  cases hs <;> rfl

/-- The one survey ends without an error if the other does. -/
theorem error?_eq_none {s s' : Survey ν ε α} (hs : Mirrors h alike s s') :
    s'.error? = none ↔ s.error? = none := by
  cases hs with
  | found notes a => exact ⟨fun _ => rfl, fun _ => rfl⟩
  | stopped notes he => exact ⟨nofun, nofun⟩

/-- Where errors that are alike are the same, the two surveys stop with the
same error, or with none. -/
theorem error?_eq {s s' : Survey ν ε α} (hs : Mirrors h alike s s')
    (halike : ∀ e e', alike e e' → e' = e) : s'.error? = s.error? := by
  cases hs with
  | found notes a => rfl
  | stopped notes he => exact congrArg some (halike _ _ he)

end Mirrors

end Survey

open Survey (Mirrors)

variable {f : Node → Node}

/-- The second survey mirrors the first at other nodes, with the same
error if all places are kept. -/
abbrev Names.Mirrored {α : Type} (f : Node → Node) (s s' : Names α) : Prop :=
  Mirrors (LocalUse.mapNode f) (fun e e' => KeepsPlaces f → e' = e) s s'

open Names (Mirrored)

-- ================================================================= scopes

namespace Scopes

variable (scopes : Scopes)

/-- Whether a use is noted depends on its name and the scopes. -/
theorem mirrors_use (kind : UseKind) (node : Node) (name : String) :
    Mirrored f (scopes.use kind node name)
      (scopes.use kind (f node) name) := by
  unfold use
  split
  · exact .note _
  · exact .done _

/-- A name that is declared twice is so at other nodes too. The error has the
place of the name, which is replaced with its node. -/
theorem mirrors_declare (name : Name) (id : Nat) :
    Mirrored f (scopes.declare name)
      (scopes.declare (name.mapNode f id)) := by
  cases scopes with
  | nil => exact .done _
  | cons scope outer =>
    unfold declare
    by_cases hmem : name.text ∈ scope
    · have hmem' : (name.mapNode f id).text ∈ scope := hmem
      simp only [if_pos hmem, if_pos hmem']
      exact .stop fun hf => by rw [Name.mapNode, hf]
    · have hmem' : (name.mapNode f id).text ∉ scope := hmem
      simp only [if_neg hmem, if_neg hmem']
      exact .done _

/-- The same of parameters. -/
theorem mirrors_declareAll (names : List Name) (id : Nat) :
    Mirrored f (scopes.declareAll names)
      (scopes.declareAll (names.map (·.mapNode f id))) := by
  induction names generalizing scopes with
  | nil => exact .done _
  | cons name names ih =>
    exact .bind (scopes.mirrors_declare name id) fun inner => ih inner

end Scopes

-- ================================================================== trees

mutual

/-- The survey of an expression with other nodes finds the same. -/
theorem Expr.mirrors_survey {scopes : Scopes} {pending : Option String} :
    (e : Expr) → Mirrored f (e.survey scopes pending)
      ((e.mapNodes f).survey scopes pending)
  | .literal _ _ => .done _
  | .var node name => by
      rw [Expr.mapNodes, Expr.survey, Expr.survey]
      split
      · exact .stop fun hf => by rw [hf]
      · exact scopes.mirrors_use .read node name
  | .assign node name value =>
      .bind value.mirrors_survey fun _ => scopes.mirrors_use .write node name
  | .group _ inner => inner.mirrors_survey
  | .unary _ _ operand => operand.mirrors_survey
  | .binary _ _ left right =>
      .bind left.mirrors_survey fun _ => right.mirrors_survey
  | .logical _ _ left right =>
      .bind left.mirrors_survey fun _ => right.mirrors_survey
  | .call _ _ callee args =>
      .bind callee.mirrors_survey fun _ => mirrors_surveyAll args

/-- So does that of some expressions. -/
theorem Expr.mirrors_surveyAll {scopes : Scopes} {pending : Option String} :
    (es : List Expr) → Mirrored f
      (Expr.surveyAll scopes pending es)
      (Expr.surveyAll scopes pending (Expr.mapAll f es))
  | [] => .done _
  | e :: es => .bind e.mirrors_survey fun _ => mirrors_surveyAll es

end

/-- So does that of an initializer, if there is one. -/
theorem Expr.mirrors_surveyInit {scopes : Scopes} {name : String} :
    (init : Option Expr) → Mirrored f
      (Expr.surveyInit scopes name init)
      (Expr.surveyInit scopes name (init.map (·.mapNodes f)))
  | none => .done _
  | some e => e.mirrors_survey

mutual

/-- The survey of a statement with other nodes finds the same, and the same
scopes behind it. -/
theorem Stmt.mirrors_survey {inFunction : Bool} {scopes : Scopes} :
    (s : Stmt) → Mirrored f (s.survey inFunction scopes)
      ((s.mapNodes f).survey inFunction scopes)
  | .expr _ value | .print _ value =>
      .bind value.mirrors_survey fun _ => .done _
  | .varDecl node name init =>
      .bind (scopes.mirrors_declare name node.id) fun _ =>
        .bind (Expr.mirrors_surveyInit init) fun _ => .done _
  | .funDecl node name _ params _ body =>
      .bind (scopes.mirrors_declare name node.id) fun _ =>
        .bind (Scopes.mirrors_declareAll _ params node.id) fun _ =>
          .bind (mirrors_surveyAll body) fun _ => .done _
  | .block _ body => .bind (mirrors_surveyAll body) fun _ => .done _
  | .cond _ test yes none =>
      .bind test.mirrors_survey fun _ =>
        .bind yes.mirrors_survey fun _ => .done _
  | .cond _ test yes (some no) =>
      .bind test.mirrors_survey fun _ =>
        .bind yes.mirrors_survey fun _ =>
          .bind no.mirrors_survey fun _ => .done _
  | .loop _ test body =>
      .bind test.mirrors_survey fun _ =>
        .bind body.mirrors_survey fun _ => .done _
  | .ret _ none => by
      cases inFunction
      · exact .stop fun hf => by rw [hf]
      · exact .done _
  | .ret _ (some e) => by
      cases inFunction
      · exact .stop fun hf => by rw [hf]
      · exact .bind e.mirrors_survey fun _ => .done _

/-- So does that of statements one behind the other. -/
theorem Stmt.mirrors_surveyAll {inFunction : Bool} {scopes : Scopes} :
    (ss : List Stmt) → Mirrored f
      (Stmt.surveyAll inFunction scopes ss)
      (Stmt.surveyAll inFunction scopes (Stmt.mapAll f ss))
  | [] => .done _
  | s :: ss => .bind s.mirrors_survey fun _ => mirrors_surveyAll ss

end

-- =============================================================== programs

/-- So does that of a statement at the top level, which is surveyed by
itself. -/
theorem Stmt.mirrors_surveyTop (s : Stmt) :
    Mirrored f s.surveyTop (s.mapNodes f).surveyTop :=
  s.mirrors_survey

/-- The local uses of a program with other nodes are the same, at the other
nodes. -/
theorem localUses_mapNodes (program : List Stmt) :
    localUses (Stmt.mapAll f program)
      = (localUses program).map (·.mapNode f) := by
  rw [Stmt.mapAll_eq_map, localUses, localUses, List.flatMap_map,
    List.map_flatMap]
  exact List.flatMap_congr fun s _ => s.mirrors_surveyTop.notes

/-- With other nodes, the same names are bound in the same way. -/
theorem bindProgram_mapNodes {program : List Stmt} {uses : List LocalUse}
    (h : bindProgram program = .ok uses) :
    bindProgram (Stmt.mapAll f program) = .ok (uses.map (·.mapNode f)) := by
  obtain ⟨rfl, hbound⟩ := bindProgram_eq_ok_iff.1 h
  refine bindProgram_eq_ok_iff.2 ⟨(localUses_mapNodes program).symm, ?_⟩
  rw [Stmt.mapAll_eq_map, List.forall_mem_map]
  exact fun s hs => s.mirrors_surveyTop.error?_eq_none.2 (hbound s hs)

/-- If all places are kept, the same is wrong with the names, too. -/
theorem bindProgram_of_keepsPlaces (hf : KeepsPlaces f)
    (program : List Stmt) :
    bindProgram (Stmt.mapAll f program)
      = (bindProgram program).map (List.map (·.mapNode f)) := by
  have herrors : bindingErrors (Stmt.mapAll f program)
      = bindingErrors program := by
    rw [Stmt.mapAll_eq_map, bindingErrors, bindingErrors, List.filterMap_map]
    exact List.filterMap_congr fun s _ => s.mirrors_surveyTop.error?_eq
      fun _ _ he => he hf
  unfold bindProgram
  rw [herrors, localUses_mapNodes]
  cases Diagnostics.ofList? (bindingErrors program) <;> rfl

/-- Two programs that are accepted are accepted together, since each statement
at the top level is surveyed by itself. -/
theorem bindProgram_append {as bs : List Stmt} {uses uses' : List LocalUse}
    (ha : bindProgram as = .ok uses) (hb : bindProgram bs = .ok uses') :
    bindProgram (as ++ bs) = .ok (uses ++ uses') := by
  obtain ⟨rfl, hbound⟩ := bindProgram_eq_ok_iff.1 ha
  obtain ⟨rfl, hbound'⟩ := bindProgram_eq_ok_iff.1 hb
  exact bindProgram_eq_ok_iff.2
    ⟨List.flatMap_append.symm, List.forall_mem_append.2 ⟨hbound, hbound'⟩⟩

/-- Depths are recorded by the identities of nodes. -/
theorem Depths.record_mapNode (depths : Depths) (uses : List LocalUse)
    (hf : ∀ node, (f node).id = node.id) :
    depths.record (uses.map (·.mapNode f)) = depths.record uses := by
  unfold record
  rw [List.foldl_map]
  simp only [LocalUse.mapNode, hf]

/-- In two tables of one size, as many entries are recorded for some uses
as for the same uses with greater numbers, if the tables have entries for
the same of them. -/
theorem Depths.size_record_later {depths depths' : Depths} {n n' : Nat}
    (uses : List LocalUse) (hsize : depths'.size = depths.size)
    (hsame : ∀ u ∈ uses, depths'.contains (u.node.id + n')
      = depths.contains (u.node.id + n)) :
    (depths'.record (uses.map (·.mapNode (.later n')))).size
      = (depths.record (uses.map (·.mapNode (.later n)))).size := by
  induction uses generalizing depths depths' with
  | nil => exact hsize
  | cons u uses ih =>
    rw [List.forall_mem_cons] at hsame
    refine ih ?_ fun w hw => ?_
    · rw [Std.TreeMap.size_insert, Std.TreeMap.size_insert, hsize]
      simp only [LocalUse.mapNode, Node.renumber]
      rw [hsame.1]
    · have hcompare : (compare (u.node.id + n') (w.node.id + n') == .eq)
          = (compare (u.node.id + n) (w.node.id + n) == .eq) := by
        rw [Bool.eq_iff_iff, beq_iff_eq, beq_iff_eq, Nat.compare_eq_eq,
          Nat.compare_eq_eq, Nat.add_right_cancel_iff,
          Nat.add_right_cancel_iff]
      rw [Std.TreeMap.contains_insert, Std.TreeMap.contains_insert,
        hsame.2 w hw]
      exact congrArg (· || _) hcompare

end Lox
