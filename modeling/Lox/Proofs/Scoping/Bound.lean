/-
What a survey leaves behind. In a program that was surveyed without an
error, the table has for each use of a name just what the scopes around
the use say (`Bound`), no name is declared twice in a scope, and no use
stands in the initializer of its own local variable unless it is an
assignment. This is read off the tree alone, part by part, which is what
a run through the parts needs.

# The table and the notes

The table is filled from the notes of the survey, one for each use. The
identities of the nodes tell the uses apart, so what the table has at a
node is what the survey of the part with that node has noted
(`Tabled.split`).
-/
import Lox.Binding
import Lox.Proofs.Tree.Nodes
import Lox.Proofs.Tree.Render

namespace Lox

-- =============================================================== scopes

namespace Scopes

/-- The scopes behind a declaration; at the top level there are none. -/
def add (scopes : Scopes) (name : String) : Scopes :=
  match scopes with
  | [] => []
  | scope :: outer => (name :: scope) :: outer

/-- A name is looked for in the innermost scope first, and each scope that
does not declare it is one more to go out. -/
theorem depth?_cons (scope : Scope) (outer : Scopes) (name : String) :
    depth? (scope :: outer) name
      = if name ∈ scope then some 0
        else (depth? outer name).map (· + 1) := by
  simp [depth?, List.findIdx?_cons]

/-- The innermost scope does not declare the name yet. -/
def Fresh (scopes : Scopes) (name : String) : Prop :=
  ∀ scope ∈ scopes.head?, name ∉ scope

end Scopes

/-- The scopes behind a statement. -/
def Stmt.scopesAfter (scopes : Scopes) : Stmt → Scopes
  | .varDecl _ name _ | .funDecl _ name _ _ _ _ => scopes.add name.text
  | _ => scopes

-- ================================================================ bound

/-- What a table says about the use at a node. -/
abbrev Table := Nat → Option Nat

section Bound

variable (table : Table)

mutual

/-- The table has for each use in the expression what the scopes say,
and no use reads the pending name. -/
def Expr.Bound (scopes : Scopes) (pending : Option String) : Expr → Prop
  | .literal _ _ => True
  | .var node name =>
      pending ≠ some name ∧ table node.id = scopes.depth? name
  | .assign node name value =>
      value.Bound scopes pending ∧ table node.id = scopes.depth? name
  | .group _ inner => inner.Bound scopes pending
  | .unary _ _ operand => operand.Bound scopes pending
  | .binary _ _ left right | .logical _ _ left right =>
      left.Bound scopes pending ∧ right.Bound scopes pending
  | .call _ _ callee args =>
      callee.Bound scopes pending ∧ AllBound scopes pending args

/-- The same for each of these expressions. -/
def Expr.AllBound (scopes : Scopes) (pending : Option String) :
    List Expr → Prop
  | [] => True
  | e :: es => e.Bound scopes pending ∧ AllBound scopes pending es

end

/-- To be bound is asked of each expression in a list. -/
theorem Expr.allBound_iff {table : Table} {scopes : Scopes}
    {pending : Option String} {es : List Expr} :
    Expr.AllBound table scopes pending es
      ↔ ∀ e ∈ es, e.Bound table scopes pending := by
  induction es with
  | nil => simp [AllBound]
  | cons e es ih => rw [AllBound, List.forall_mem_cons, ih]

/-- The name that is pending in an initializer among these scopes. -/
def Scopes.pending (scopes : Scopes) (name : String) : Option String :=
  if scopes.isEmpty then none else some name

mutual

/-- The table has for each use in the statement what the scopes say, and
every declaration is the first of its name in its scope. -/
def Stmt.Bound (scopes : Scopes) : Stmt → Prop
  | .expr _ value | .print _ value => value.Bound table scopes none
  | .varDecl _ name init =>
      scopes.Fresh name.text ∧ ∀ e ∈ init,
        e.Bound table (scopes.add name.text) (scopes.pending name.text)
  | .funDecl _ name _ params _ body =>
      scopes.Fresh name.text ∧ (params.map Name.text).Nodup ∧
        AllBound ((params.map Name.text).reverse :: scopes.add name.text)
          body
  | .block _ body => AllBound ([] :: scopes) body
  | .cond _ test yes none => test.Bound table scopes none ∧ yes.Bound scopes
  | .cond _ test yes (some no) =>
      test.Bound table scopes none ∧ yes.Bound scopes ∧ no.Bound scopes
  | .loop _ test body => test.Bound table scopes none ∧ body.Bound scopes
  | .ret _ value => ∀ e ∈ value, e.Bound table scopes none

/-- The same for each of these statements, behind those before it. -/
def Stmt.AllBound (scopes : Scopes) : List Stmt → Prop
  | [] => True
  | s :: ss => s.Bound scopes ∧ AllBound (s.scopesAfter scopes) ss

end

end Bound

-- ======================================================= ended surveys

namespace Survey

variable {ν ε α β : Type}

/-- A survey that ended without an error did so step by step. -/
theorem bind_eq_ok {s : Survey ν ε α} {f : α → Survey ν ε β}
    {notes : List ν} {b : β} :
    s >>= f = ⟨notes, .ok b⟩ ↔ ∃ a first others,
      s = ⟨first, .ok a⟩ ∧ f a = ⟨others, .ok b⟩ ∧
        notes = first ++ others := by
  show s.andThen f = _ ↔ _
  rcases s with ⟨first, e | a⟩
  · simp [andThen]
  · rcases hf : f a with ⟨others, result⟩
    constructor
    · intro h
      simp only [andThen, hf, Survey.mk.injEq] at h
      obtain ⟨rfl, rfl⟩ := h
      exact ⟨a, first, others, rfl, hf, rfl⟩
    · rintro ⟨a', first', others', h, hf', rfl⟩
      simp only [Survey.mk.injEq, Except.ok.injEq] at h
      obtain ⟨rfl, rfl⟩ := h
      rw [hf] at hf'
      simp only [Survey.mk.injEq] at hf'
      obtain ⟨rfl, rfl⟩ := hf'
      simp [andThen, hf]

/-- A survey of nothing ends at once and notes nothing. -/
@[simp] theorem pure_eq_ok {a b : α} {notes : List ν} :
    (pure a : Survey ν ε α) = ⟨notes, .ok b⟩ ↔ [] = notes ∧ a = b := by
  show (⟨[], .ok a⟩ : Survey ν ε α) = _ ↔ _
  simp

/-- The same, as the surveys say it themselves. -/
@[simp] theorem done_eq_ok {a b : α} {notes : List ν} :
    (done a : Survey ν ε α) = ⟨notes, .ok b⟩ ↔ [] = notes ∧ a = b := by
  simp [done]

/-- A survey that stops does not end. -/
@[simp] theorem stop_ne_ok {e : ε} {b : α} {notes : List ν} :
    (stop e : Survey ν ε α) ≠ ⟨notes, .ok b⟩ := by
  simp [stop]

end Survey

-- ========================================================= declarations

namespace Scopes

variable {scopes scopes' : Scopes} {notes : List LocalUse}

/-- A declaration that is accepted is the first of its name in its scope. It
is no use, so it notes nothing. -/
theorem declare_eq_ok {name : Name}
    (h : scopes.declare name = ⟨notes, .ok scopes'⟩) :
    notes = [] ∧ scopes' = scopes.add name.text ∧ scopes.Fresh name.text := by
  unfold declare at h
  split at h
  · obtain ⟨rfl, rfl⟩ := Survey.done_eq_ok.1 h
    exact ⟨rfl, rfl, nofun⟩
  · split at h
    · simp at h
    · next scope outer hfresh =>
      obtain ⟨rfl, rfl⟩ := Survey.done_eq_ok.1 h
      refine ⟨rfl, rfl, ?_⟩
      rintro _ ⟨⟩
      exact hfresh

/-- A scope in which names are declared one after another has them in
the reverse order, each once. -/
theorem declareAll_eq_ok {names : List Name} {scope : Scope}
    (hscope : scope.Nodup)
    (h : Scopes.declareAll (scope :: scopes) names
      = ⟨notes, .ok scopes'⟩) :
    notes = [] ∧ scopes' = ((names.map Name.text).reverse ++ scope) :: scopes
      ∧ ((names.map Name.text).reverse ++ scope).Nodup := by
  induction names generalizing scope notes with
  | nil =>
    obtain ⟨rfl, rfl⟩ := Survey.done_eq_ok.1 h
    exact ⟨rfl, rfl, hscope⟩
  | cons name names ih =>
    rw [declareAll, Survey.bind_eq_ok] at h
    obtain ⟨inner, first, others, hdeclare, hothers, rfl⟩ := h
    obtain ⟨rfl, rfl, hfresh⟩ := declare_eq_ok hdeclare
    have hnodup : (name.text :: scope).Nodup :=
      List.nodup_cons.2 ⟨hfresh scope rfl, hscope⟩
    obtain ⟨rfl, hscopes, hall⟩ := ih hnodup hothers
    refine ⟨rfl, by simpa using hscopes, by simpa using hall⟩

/-- A use is noted at its node if a scope declares the name. -/
theorem use_eq_ok {kind : UseKind} {node : Node} {name : String} {u : Unit}
    (h : scopes.use kind node name = ⟨notes, .ok u⟩) :
    notes = (scopes.depth? name).toList.map (⟨node, name, kind, ·⟩) := by
  unfold use at h
  split at h
  · next depth hdepth =>
    simp only [Survey.note, Survey.mk.injEq] at h
    rw [← h.1, hdepth]
    rfl
  · next hdepth =>
    obtain ⟨rfl, -⟩ := Survey.done_eq_ok.1 h
    rw [hdepth]
    rfl

end Scopes

-- ======================================================= notes by nodes

/-- The depth that was last noted at a node. -/
def depthNoted (notes : List LocalUse) (id : Nat) : Option Nat :=
  notes.foldl (fun d u => if u.node.id = id then some u.depth else d) none

/-- All notes are at nodes of these identities. -/
def Within (notes : List LocalUse) (ids : List Nat) : Prop :=
  ∀ u ∈ notes, u.node.id ∈ ids

/-- The table has at these nodes what was noted there. -/
def Tabled (table : Table) (notes : List LocalUse) (ids : List Nat) :
    Prop :=
  ∀ id ∈ ids, table id = depthNoted notes id

/-- Notes at other nodes say nothing of a node. -/
theorem foldl_noted_of_absent {notes : List LocalUse} {id : Nat}
    (h : ∀ u ∈ notes, u.node.id ≠ id) (d : Option Nat) :
    notes.foldl (fun d u => if u.node.id = id then some u.depth else d) d
      = d := by
  induction notes with
  | nil => rfl
  | cons u notes ih =>
    rw [List.forall_mem_cons] at h
    rw [List.foldl_cons, if_neg h.1, ih h.2]

/-- Notes of two parts that stand within some nodes stand within them
together. -/
theorem Within.append {as bs : List LocalUse} {ids : List Nat}
    (ha : Within as ids) (hb : Within bs ids) : Within (as ++ bs) ids := by
  intro u hu
  rcases List.mem_append.1 hu with hu | hu
  · exact ha u hu
  · exact hb u hu

/-- Notes within a part are within the whole. -/
theorem Within.mono {notes : List LocalUse} {small large : List Nat}
    (h : Within notes small) (hsub : ∀ id ∈ small, id ∈ large) :
    Within notes large :=
  fun u hu => hsub _ (h u hu)

/-- A survey of a part with these nodes has noted uses of the part
alone, and a table that has them is right for the part. -/
structure Surveyed (table : Table) (notes : List LocalUse)
    (ids : List Nat) (right : Prop) : Prop where
  within : Within notes ids
  bound : Tabled table notes ids → right

namespace Surveyed

variable {table : Table} {notes as bs : List LocalUse}
  {ids front back : List Nat} {p q : Prop}

/-- Where nothing was noted, whatever holds has been surveyed. -/
theorem none (hp : p) : Surveyed table [] ids p :=
  ⟨nofun, fun _ => hp⟩

/-- What was surveyed of a part was surveyed of the whole, for the other nodes
have notes of their own. -/
theorem mono (h : Surveyed table notes front p)
    (hsub : ∀ id ∈ front, id ∈ ids) : Surveyed table notes ids p :=
  ⟨h.within.mono hsub, fun ht => h.bound fun id hid => ht id (hsub id hid)⟩

/-- What follows from what was surveyed was surveyed as well. -/
theorem imp (h : Surveyed table notes ids p) (hpq : p → q) :
    Surveyed table notes ids q :=
  ⟨h.within, fun ht => hpq (h.bound ht)⟩

/-- The notes of two parts one after the other stand at different nodes,
so the table has for each part what was noted there. -/
theorem and (ha : Surveyed table as front p)
    (hb : Surveyed table bs back q) (hnodup : (front ++ back).Nodup) :
    Surveyed table (as ++ bs) (front ++ back) (p ∧ q) := by
  have hdisjoint := (List.nodup_append.1 hnodup).2.2
  refine ⟨(ha.within.mono fun _ => List.mem_append_left _).append
    (hb.within.mono fun _ => List.mem_append_right _), fun ht => ?_⟩
  constructor
  · refine ha.bound fun id hid => ?_
    have habsent : ∀ u ∈ bs, u.node.id ≠ id := fun u hu heq =>
      hdisjoint id hid _ (hb.within u hu) heq.symm
    rw [ht id (List.mem_append_left _ hid), depthNoted, List.foldl_append,
      foldl_noted_of_absent habsent]
    rfl
  · refine hb.bound fun id hid => ?_
    have habsent : ∀ u ∈ as, u.node.id ≠ id := fun u hu heq =>
      hdisjoint _ (ha.within u hu) id hid heq
    rw [ht id (List.mem_append_right _ hid), depthNoted,
      List.foldl_append, foldl_noted_of_absent habsent]
    rfl

/-- The table has at a node what the scopes say of the only use there. -/
theorem use {scopes : Scopes} {kind : UseKind} {node : Node}
    {name : String} {u : Unit}
    (h : scopes.use kind node name = ⟨notes, .ok u⟩) :
    Surveyed table notes [node.id] (table node.id = scopes.depth? name) := by
  obtain rfl := Scopes.use_eq_ok h
  constructor
  · intro u hu
    obtain ⟨depth, -, rfl⟩ := List.mem_map.1 hu
    simp
  · intro htable
    rw [htable node.id (by simp)]
    cases scopes.depth? name <;> simp [depthNoted]

end Surveyed

variable {table : Table}

-- =========================================================== expressions

mutual

/-- A survey of an expression that ended without an error. -/
theorem Expr.surveyed : (e : Expr) → e.ids.Nodup →
    ∀ {scopes : Scopes} {pending : Option String} {notes : List LocalUse}
      {u : Unit}, e.survey scopes pending = ⟨notes, .ok u⟩ →
        Surveyed table notes e.ids (e.Bound table scopes pending)
  | .literal _ _, _, scopes, pending, notes, u, h => by
      obtain ⟨rfl, -⟩ := Survey.done_eq_ok.1 h
      exact .none trivial
  | .var node name, _, scopes, pending, notes, u, h => by
      rw [Expr.survey] at h
      split at h
      · simp at h
      · next hpending => exact (Surveyed.use h).imp fun ht => ⟨hpending, ht⟩
  | .assign node name value, hnodup, scopes, pending, notes, u, h => by
      rw [Expr.survey, Survey.bind_eq_ok] at h
      obtain ⟨_, first, own, hvalue, huse, rfl⟩ := h
      -- The assignment is noted behind its value, but its number is listed in
      -- front.
      have hperm : (node.id :: value.ids).Perm (value.ids ++ [node.id]) :=
        (List.perm_append_singleton node.id value.ids).symm
      have hv := value.surveyed (List.nodup_cons.1 hnodup).2 hvalue
      exact (hv.and (.use huse) (hperm.nodup_iff.1 hnodup)).mono
        fun id hid => hperm.mem_iff.2 hid
  | .group _ inner, hnodup, scopes, pending, notes, u, h
  | .unary _ _ inner, hnodup, scopes, pending, notes, u, h =>
      (inner.surveyed (List.nodup_cons.1 hnodup).2 h).mono
        fun id hid => .tail _ hid
  | .binary _ _ left right, hnodup, scopes, pending, notes, u, h
  | .logical _ _ left right, hnodup, scopes, pending, notes, u, h => by
      rw [Expr.survey, Survey.bind_eq_ok] at h
      obtain ⟨_, first, others, hleft, hright, rfl⟩ := h
      have hnodup := (List.nodup_cons.1 hnodup).2
      obtain ⟨hnodupLeft, hnodupRight, -⟩ := List.nodup_append.1 hnodup
      exact ((left.surveyed hnodupLeft hleft).and
        (right.surveyed hnodupRight hright) hnodup).mono
          fun id hid => .tail _ hid
  | .call _ _ callee args, hnodup, scopes, pending, notes, u, h => by
      rw [Expr.survey, Survey.bind_eq_ok] at h
      obtain ⟨_, first, others, hcallee, hargs, rfl⟩ := h
      have hnodup := (List.nodup_cons.1 (List.nodup_cons.1 hnodup).2).2
      obtain ⟨hnodupLeft, hnodupRight, -⟩ := List.nodup_append.1 hnodup
      exact ((callee.surveyed hnodupLeft hcallee).and
        (surveyed_all args hnodupRight hargs) hnodup).mono
          fun id hid => .tail _ (.tail _ hid)

/-- The same for some expressions. -/
theorem Expr.surveyed_all : (es : List Expr) → (Expr.idsAll es).Nodup →
    ∀ {scopes : Scopes} {pending : Option String} {notes : List LocalUse}
      {u : Unit}, Expr.surveyAll scopes pending es = ⟨notes, .ok u⟩ →
        Surveyed table notes (Expr.idsAll es)
          (Expr.AllBound table scopes pending es)
  | [], _, scopes, pending, notes, u, h => by
      obtain ⟨rfl, -⟩ := Survey.done_eq_ok.1 h
      exact .none trivial
  | e :: es, hnodup, scopes, pending, notes, u, h => by
      rw [Expr.surveyAll, Survey.bind_eq_ok] at h
      obtain ⟨_, first, others, hfirst, hothers, rfl⟩ := h
      obtain ⟨hnodupLeft, hnodupRight, -⟩ := List.nodup_append.1 hnodup
      exact (e.surveyed hnodupLeft hfirst).and
        (surveyed_all es hnodupRight hothers) hnodup

end

/-- A survey of an initializer that ended without an error. -/
theorem Expr.surveyed_init {scopes : Scopes} {name : String}
    {init : Option Expr} {notes : List LocalUse} {u : Unit}
    (hnodup : (Expr.idsOf init).Nodup)
    (h : Expr.surveyInit (scopes.add name) name init = ⟨notes, .ok u⟩) :
    Surveyed table notes (Expr.idsOf init) (∀ e ∈ init,
      e.Bound table (scopes.add name) (scopes.pending name)) := by
  cases init with
  | none =>
    obtain ⟨rfl, -⟩ := Survey.done_eq_ok.1 h
    exact .none nofun
  | some e =>
    rw [Expr.surveyInit] at h
    refine (e.surveyed hnodup h).imp fun hbound => ?_
    rintro _ ⟨⟩
    cases scopes <;> exact hbound

-- ============================================================ statements

mutual

/-- A survey of a statement that ended without an error. -/
theorem Stmt.surveyed : (s : Stmt) → s.ids.Nodup →
    ∀ {inFunction : Bool} {scopes scopes' : Scopes}
      {notes : List LocalUse},
        s.survey inFunction scopes = ⟨notes, .ok scopes'⟩ →
          scopes' = s.scopesAfter scopes ∧
            Surveyed table notes s.ids (s.Bound table scopes)
  | .expr _ value, hnodup, inFunction, scopes, scopes', notes, h
  | .print _ value, hnodup, inFunction, scopes, scopes', notes, h => by
      rw [Stmt.survey, Survey.bind_eq_ok] at h
      obtain ⟨_, first, others, hvalue, hpure, rfl⟩ := h
      obtain ⟨rfl, rfl⟩ := Survey.pure_eq_ok.1 hpure
      rw [List.append_nil]
      exact ⟨rfl, (value.surveyed (List.nodup_cons.1 hnodup).2 hvalue).mono
        fun id hid => .tail _ hid⟩
  | .varDecl _ name init, hnodup, inFunction, scopes, scopes', notes, h => by
      rw [Stmt.survey, Survey.bind_eq_ok] at h
      obtain ⟨inner, first, others, hdeclare, h', rfl⟩ := h
      obtain ⟨rfl, rfl, hfresh⟩ := Scopes.declare_eq_ok hdeclare
      rw [Survey.bind_eq_ok] at h'
      obtain ⟨_, uses, last, hinit, hpure, rfl⟩ := h'
      obtain ⟨rfl, rfl⟩ := Survey.pure_eq_ok.1 hpure
      rw [List.append_nil, List.nil_append]
      refine ⟨rfl, Surveyed.imp ?_ fun hbound => ⟨hfresh, hbound⟩⟩
      exact (Expr.surveyed_init (List.nodup_cons.1 hnodup).2 hinit).mono
        fun id hid => .tail _ hid
  | .funDecl _ name _ params _ body, hnodup, inFunction, scopes, scopes',
      notes, h => by
      rw [Stmt.survey, Survey.bind_eq_ok] at h
      obtain ⟨around, first, others, hdeclare, h', rfl⟩ := h
      obtain ⟨rfl, rfl, hfresh⟩ := Scopes.declare_eq_ok hdeclare
      rw [Survey.bind_eq_ok] at h'
      obtain ⟨inner, first, uses, hparams, h'', rfl⟩ := h'
      obtain ⟨rfl, rfl, hall⟩ := Scopes.declareAll_eq_ok .nil hparams
      rw [Survey.bind_eq_ok] at h''
      obtain ⟨_, uses, last, hbody, hpure, rfl⟩ := h''
      obtain ⟨rfl, rfl⟩ := Survey.pure_eq_ok.1 hpure
      rw [List.append_nil] at hall hbody
      rw [List.append_nil, List.nil_append, List.nil_append]
      have hnodup := (List.nodup_cons.1 (List.nodup_cons.1
        (List.nodup_cons.1 hnodup).2).2).2
      refine ⟨rfl, Surveyed.imp ?_ fun hbound =>
        ⟨hfresh, (List.reverse_perm _).nodup_iff.1 hall, hbound⟩⟩
      exact (surveyed_all body hnodup hbody).mono
        fun id hid => .tail _ (.tail _ (.tail _ hid))
  | .block _ body, hnodup, inFunction, scopes, scopes', notes, h => by
      rw [Stmt.survey, Survey.bind_eq_ok] at h
      obtain ⟨_, uses, last, hbody, hpure, rfl⟩ := h
      obtain ⟨rfl, rfl⟩ := Survey.pure_eq_ok.1 hpure
      rw [List.append_nil]
      exact ⟨rfl, (surveyed_all body (List.nodup_cons.1 hnodup).2 hbody).mono
        fun id hid => .tail _ hid⟩
  | .cond _ test yes none, hnodup, inFunction, scopes, scopes', notes, h => by
      rw [Stmt.survey, Survey.bind_eq_ok] at h
      obtain ⟨_, first, others, htest, h', rfl⟩ := h
      rw [Survey.bind_eq_ok] at h'
      obtain ⟨_, uses, last, hyes, hpure, rfl⟩ := h'
      obtain ⟨rfl, rfl⟩ := Survey.pure_eq_ok.1 hpure
      rw [List.append_nil]
      have hnodup := (List.nodup_cons.1 hnodup).2
      obtain ⟨hnodupLeft, hnodupRight, -⟩ := List.nodup_append.1 hnodup
      exact ⟨rfl, ((test.surveyed hnodupLeft htest).and
        (yes.surveyed hnodupRight hyes).2 hnodup).mono
          fun id hid => .tail _ hid⟩
  | .cond _ test yes (some no), hnodup, inFunction, scopes, scopes', notes,
      h => by
      rw [Stmt.survey, Survey.bind_eq_ok] at h
      obtain ⟨_, first, others, htest, h', rfl⟩ := h
      rw [Survey.bind_eq_ok] at h'
      obtain ⟨_, uses, last, hyes, h'', rfl⟩ := h'
      rw [Survey.bind_eq_ok] at h''
      obtain ⟨_, uses', last', hno, hpure, rfl⟩ := h''
      obtain ⟨rfl, rfl⟩ := Survey.pure_eq_ok.1 hpure
      rw [List.append_nil]
      have hnodup : (test.ids ++ (yes.ids ++ no.ids)).Nodup := by
        rw [← List.append_assoc]
        exact (List.nodup_cons.1 hnodup).2
      obtain ⟨hnodupTest, hnodupOthers, -⟩ := List.nodup_append.1 hnodup
      obtain ⟨hnodupYes, hnodupNo, -⟩ := List.nodup_append.1 hnodupOthers
      refine ⟨rfl, ((test.surveyed hnodupTest htest).and
        ((yes.surveyed hnodupYes hyes).2.and (no.surveyed hnodupNo hno).2
          hnodupOthers) hnodup).mono fun id hid => ?_⟩
      rw [← List.append_assoc] at hid
      exact .tail _ hid
  | .loop _ test body, hnodup, inFunction, scopes, scopes', notes, h => by
      rw [Stmt.survey, Survey.bind_eq_ok] at h
      obtain ⟨_, first, others, htest, h', rfl⟩ := h
      rw [Survey.bind_eq_ok] at h'
      obtain ⟨_, uses, last, hbody, hpure, rfl⟩ := h'
      obtain ⟨rfl, rfl⟩ := Survey.pure_eq_ok.1 hpure
      rw [List.append_nil]
      have hnodup := (List.nodup_cons.1 hnodup).2
      obtain ⟨hnodupLeft, hnodupRight, -⟩ := List.nodup_append.1 hnodup
      exact ⟨rfl, ((test.surveyed hnodupLeft htest).and
        (body.surveyed hnodupRight hbody).2 hnodup).mono
          fun id hid => .tail _ hid⟩
  | .ret _ value, hnodup, inFunction, scopes, scopes', notes, h => by
      simp only [Stmt.survey] at h
      split at h
      · cases value with
        | none =>
          obtain ⟨rfl, rfl⟩ := Survey.pure_eq_ok.1 h
          exact ⟨rfl, .none nofun⟩
        | some e =>
          simp only [Survey.bind_eq_ok] at h
          obtain ⟨_, first, others, hvalue, hpure, rfl⟩ := h
          obtain ⟨rfl, rfl⟩ := Survey.pure_eq_ok.1 hpure
          rw [List.append_nil]
          refine ⟨rfl, ((e.surveyed (List.nodup_cons.1 hnodup).2 hvalue).imp
            ?_).mono fun id hid => .tail _ hid⟩
          rintro hbound _ ⟨⟩
          exact hbound
      · simp at h

/-- The same for some statements. -/
theorem Stmt.surveyed_all : (ss : List Stmt) → (Stmt.idsAll ss).Nodup →
    ∀ {inFunction : Bool} {scopes scopes' : Scopes}
      {notes : List LocalUse},
        Stmt.surveyAll inFunction scopes ss = ⟨notes, .ok scopes'⟩ →
          Surveyed table notes (Stmt.idsAll ss)
            (Stmt.AllBound table scopes ss)
  | [], _, inFunction, scopes, scopes', notes, h => by
      obtain ⟨rfl, -⟩ := Survey.done_eq_ok.1 h
      exact .none trivial
  | s :: ss, hnodup, inFunction, scopes, scopes', notes, h => by
      rw [Stmt.surveyAll, Survey.bind_eq_ok] at h
      obtain ⟨_, first, others, hfirst, hothers, rfl⟩ := h
      obtain ⟨hnodupLeft, hnodupRight, -⟩ := List.nodup_append.1 hnodup
      obtain ⟨rfl, hs⟩ := s.surveyed hnodupLeft hfirst
      exact hs.and (surveyed_all ss hnodupRight hothers) hnodup

end

-- ============================================== statements at their place

namespace Stmt

variable {limit : Nat} {scopes : Scopes}

/-- A statement that is bound among these scopes and comes from a text
that was numbered below the limit. -/
structure Placed (table : Table) (limit : Nat) (scopes : Scopes)
    (s : Stmt) : Prop where
  bound : s.Bound table scopes
  formed : s.WellFormed
  ids : ∀ id ∈ s.ids, id < limit

/-- The same of statements one behind the other. -/
structure AllPlaced (table : Table) (limit : Nat) (scopes : Scopes)
    (ss : List Stmt) : Prop where
  bound : AllBound table scopes ss
  formed : AllWellFormed ss
  ids : ∀ id ∈ idsAll ss, id < limit

/-- The first of some statements is at its place. -/
theorem AllPlaced.head {s : Stmt} {ss : List Stmt}
    (h : AllPlaced table limit scopes (s :: ss)) :
    Placed table limit scopes s :=
  ⟨h.bound.1, h.formed.1, fun id hid => h.ids id (List.mem_append_left _ hid)⟩

/-- The others are at theirs, behind what the first one declares. -/
theorem AllPlaced.tail {s : Stmt} {ss : List Stmt}
    (h : AllPlaced table limit scopes (s :: ss)) :
    AllPlaced table limit (s.scopesAfter scopes) ss :=
  ⟨h.bound.2, h.formed.2, fun id hid => h.ids id (List.mem_append_right _ hid)⟩

namespace Placed

variable {node bodyNode : Node} {name : Name} {paramsId : Nat}
  {params : List Name} {e : Expr} {s s' : Stmt} {other : Option Stmt}
  {ss : List Stmt}

/-- What is in a block is in a scope of its own. -/
theorem block (h : Placed table limit scopes (.block node ss)) :
    AllPlaced table limit ([] :: scopes) ss :=
  ⟨h.bound, h.formed, fun id hid => h.ids id (.tail _ hid)⟩

/-- The body of a function is in a scope with its parameters, and that is in
the scope in which the function has its name. -/
theorem function (h : Placed table limit scopes
      (.funDecl node name paramsId params bodyNode ss)) :
    AllPlaced table limit
      ((params.map Name.text).reverse :: scopes.add name.text) ss :=
  ⟨h.bound.2.2, h.formed,
    fun id hid => h.ids id (.tail _ (.tail _ (.tail _ hid)))⟩

/-- The test of an `if` declares nothing and is bound where the `if` is. -/
theorem test (h : Placed table limit scopes (.cond node e s other)) :
    e.Bound table scopes none := by
  have hbound := h.bound
  cases other <;> exact hbound.1

/-- So is the branch behind it, which is no declaration, as the parser sees to
it. -/
theorem yes (h : Placed table limit scopes (.cond node e s other)) :
    s.declares = false ∧ Placed table limit scopes s := by
  obtain ⟨hbound, hformed, hids⟩ := h
  cases other with
  | none =>
    exact ⟨hformed.2.1, hbound.2, hformed.2.2,
      fun id hid => hids id (.tail _ (List.mem_append_right _ hid))⟩
  | some no =>
    exact ⟨hformed.2.1.1, hbound.2.1, hformed.2.1.2, fun id hid =>
      hids id (.tail _ (List.mem_append_left _
        (List.mem_append_right _ hid)))⟩

/-- So is the branch behind `else`. -/
theorem no (h : Placed table limit scopes (.cond node e s (some s'))) :
    s'.declares = false ∧ Placed table limit scopes s' :=
  ⟨h.formed.2.2.1, h.bound.2.2, h.formed.2.2.2,
    fun id hid => h.ids id (.tail _ (List.mem_append_right _ hid))⟩

/-- So is the body of a loop, in every round. -/
theorem round (h : Placed table limit scopes (.loop node e s)) :
    s.declares = false ∧ Placed table limit scopes s :=
  ⟨h.formed.2.1, h.bound.2, h.formed.2.2,
    fun id hid => h.ids id (.tail _ (List.mem_append_right _ hid))⟩

end Placed

end Stmt

end Lox
