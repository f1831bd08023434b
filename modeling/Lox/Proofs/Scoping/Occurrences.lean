/-
What a walk through a program meets: declarations, uses of names and
returns, from left to right, each with the scopes around it. Scopes are
told apart by the nodes that open them, and what a scope declares before
a use is read off the part of the walk before the use, so nothing is
carried along. The survey carries lists of names instead, one for each
scope. The two fit (`Shown`): at every point of the walk a list has the
names that the walk has met in that scope so far.

# Numbers

That needs the nodes of a program to be different, as the numbers that a
reading gives them are. A scope that is opened has not been met before,
and one that was closed is not met again.
-/
import Lox.Proofs.Reading.Numbering
import Lox.Proofs.Reading.Parse
import Lox.Proofs.Reading.Words
import Lox.Proofs.Scoping.Agreement
import Lox.Proofs.Scoping.Noted

namespace Lox

-- =============================================================== the walk

/-- What a walk through a program meets. -/
inductive Event where
  | declared (name : Name)
  | used (kind : UseKind) (node : Node) (name : String)
  | returned (node : Node)
deriving DecidableEq

/-- Where something stands. -/
structure Spot where
  /-- The blocks and functions around it, the innermost first. The body of
  a function is no block of its own. -/
  scopes : List Nat
  /-- Whether it stands in the body of a function. -/
  inFunction : Bool
  /-- The variable whose initializer it stands in. -/
  initializes : Option String
deriving DecidableEq

/-- The top level. -/
def Spot.top : Spot := ⟨[], false, none⟩

/-- The spots in a block. -/
def Spot.block (spot : Spot) (node : Node) : Spot :=
  { spot with scopes := node.id :: spot.scopes }

/-- The spots of the parameters of a function and of its body. -/
def Spot.function (spot : Spot) (node : Node) : Spot :=
  ⟨node.id :: spot.scopes, true, none⟩

/-- The spots in the initializer of a variable. -/
def Spot.initializer (spot : Spot) (name : Name) : Spot :=
  { spot with initializes := some name.text }

/-- Something that is met at a spot. -/
structure Occurrence where
  event : Event
  spot : Spot
deriving DecidableEq

mutual

/-- What is met in an expression, from left to right; the target of an
assignment behind its value. -/
def Expr.occurrences (spot : Spot) : Expr → List Occurrence
  | .literal _ _ => []
  | .var node name => [⟨.used .read node name, spot⟩]
  | .assign node name value =>
      value.occurrences spot ++ [⟨.used .write node name, spot⟩]
  | .group _ inner => inner.occurrences spot
  | .unary _ _ operand => operand.occurrences spot
  | .binary _ _ left right | .logical _ _ left right =>
      left.occurrences spot ++ right.occurrences spot
  | .call _ _ callee args =>
      callee.occurrences spot ++ allOccurrences spot args

/-- What is met in some expressions. -/
def Expr.allOccurrences (spot : Spot) : List Expr → List Occurrence
  | [] => []
  | e :: es => e.occurrences spot ++ allOccurrences spot es

end

/-- What is met in an expression that may be missing. -/
def Expr.occurrencesOf (spot : Spot) : Option Expr → List Occurrence
  | none => []
  | some e => e.occurrences spot

mutual

/-- What is met in a statement, from left to right: a declared name before
what it is declared as, and a return before its value. -/
def Stmt.occurrences (spot : Spot) : Stmt → List Occurrence
  | .expr _ e | .print _ e => e.occurrences spot
  | .varDecl _ name init =>
      ⟨.declared name, spot⟩ ::
        Expr.occurrencesOf (spot.initializer name) init
  | .funDecl node name _ params _ body =>
      ⟨.declared name, spot⟩ ::
        (params.map (⟨.declared ·, spot.function node⟩) ++
          allOccurrences (spot.function node) body)
  | .block node body => allOccurrences (spot.block node) body
  | .cond _ test yes none => test.occurrences spot ++ yes.occurrences spot
  | .cond _ test yes (some no) =>
      test.occurrences spot ++ (yes.occurrences spot ++ no.occurrences spot)
  | .loop _ test body => test.occurrences spot ++ body.occurrences spot
  | .ret node value => ⟨.returned node, spot⟩ :: Expr.occurrencesOf spot value

/-- What is met in some statements. -/
def Stmt.allOccurrences (spot : Spot) : List Stmt → List Occurrence
  | [] => []
  | s :: ss => s.occurrences spot ++ allOccurrences spot ss

end

-- ==================================================== what scopes declare

/-- It declares this name in this scope. -/
def Occurrence.Declares (o : Occurrence) (scope : Nat) (name : String) :
    Prop :=
  o.spot.scopes.head? = some scope ∧
    ∃ declared, o.event = .declared declared ∧ declared.text = name

/-- Something on the way declared this name in this scope. -/
def DeclaredBefore (before : List Occurrence) (scope : Nat)
    (name : String) : Prop :=
  ∃ o ∈ before, o.Declares scope name

/-- Of these scopes, the first that has declared the name on the way is
the one that comes after so many. -/
def NearestDeclaring (before : List Occurrence) (scopes : List Nat)
    (name : String) (depth : Nat) : Prop :=
  (∃ scope, scopes[depth]? = some scope ∧ DeclaredBefore before scope name) ∧
    ∀ k < depth, ∀ scope, scopes[k]? = some scope →
      ¬ DeclaredBefore before scope name

theorem declaredBefore_append {before os : List Occurrence} {scope : Nat}
    {name : String} :
    DeclaredBefore (before ++ os) scope name
      ↔ DeclaredBefore before scope name ∨ DeclaredBefore os scope name := by
  simp only [DeclaredBefore, List.mem_append, or_and_right, exists_or]

/-- These lists have the names that were declared in these scopes on the
way. -/
def Shown (before : List Occurrence) (ids : List Nat) (scopes : Scopes) :
    Prop :=
  List.Forall₂ (fun scope id => ∀ name : String,
    name ∈ scope ↔ DeclaredBefore before id name) scopes ids

namespace Shown

variable {before os : List Occurrence} {ids : List Nat} {scopes : Scopes}

/-- The first list that has a name is that of the nearest scope that has
declared it. -/
theorem depth?_eq_some_iff (h : Shown before ids scopes) {name : String}
    {depth : Nat} :
    scopes.depth? name = some depth
      ↔ NearestDeclaring before ids name depth := by
  induction h generalizing depth with
  | nil => simp [Scopes.depth?, NearestDeclaring]
  | @cons scope id outer ids hscope _ ih =>
    rw [Scopes.depth?_cons]
    -- The innermost scope has the name, or the depth is one more than further
    -- out.
    by_cases hname : name ∈ scope
    · have hdeclared := (hscope name).1 hname
      rw [if_pos hname, Option.some.injEq]
      constructor
      · rintro rfl
        exact ⟨⟨id, rfl, hdeclared⟩, fun k hk => absurd hk k.not_lt_zero⟩
      · rintro ⟨-, hbelow⟩
        by_contra hne
        exact hbelow 0 (Nat.pos_of_ne_zero fun h => hne h.symm) id rfl
          hdeclared
    · have hfresh := fun h => hname ((hscope name).2 h)
      rw [if_neg hname, Option.map_eq_some_iff]
      constructor
      · rintro ⟨k, hk, rfl⟩
        obtain ⟨hat, hbelow⟩ := ih.1 hk
        refine ⟨hat, fun j hj other hother => ?_⟩
        cases j with
        | zero =>
          obtain rfl : id = other := by simpa using hother
          exact hfresh
        | succ j => exact hbelow j (Nat.lt_of_succ_lt_succ hj) other hother
      · rintro ⟨⟨other, hother, hdeclared⟩, hbelow⟩
        cases depth with
        | zero =>
          obtain rfl : id = other := by simpa using hother
          exact absurd hdeclared hfresh
        | succ k =>
          refine ⟨k, ih.2 ⟨⟨other, hother, hdeclared⟩, fun j hj => ?_⟩, rfl⟩
          exact hbelow (j + 1) (Nat.succ_lt_succ hj)

/-- What declares nothing in these scopes leaves the lists right. -/
theorem append (h : Shown before ids scopes)
    (hos : ∀ id ∈ ids, ∀ name, ¬ DeclaredBefore os id name) :
    Shown (before ++ os) ids scopes := by
  induction h with
  | nil => exact .nil
  | @cons scope id outer ids hscope _ ih =>
    rw [List.forall_mem_cons] at hos
    refine .cons (fun name => ?_) (ih hos.2)
    rw [hscope name, declaredBefore_append, or_iff_left (hos.1 name)]

/-- So does what declares nothing at all. -/
theorem beyond (h : Shown before ids scopes)
    (hos : ∀ {id name}, ¬ DeclaredBefore os id name) :
    Shown (before ++ os) ids scopes :=
  h.append fun _ _ _ => hos

/-- A scope that nothing on the way was in starts without names. -/
theorem enter (h : Shown before ids scopes) {id : Nat}
    (hid : ∀ name, ¬ DeclaredBefore before id name) :
    Shown before (id :: ids) ([] :: scopes) :=
  .cons (fun name => iff_of_false List.not_mem_nil (hid name)) h

/-- A declaration is in the innermost scope. -/
theorem declare {spot : Spot} (h : Shown before spot.scopes scopes)
    (hnodup : spot.scopes.Nodup) (name : Name) :
    Shown (before ++ [⟨.declared name, spot⟩]) spot.scopes
      (scopes.add name.text) := by
  have hdeclares (id : Nat) (other : String) :
      DeclaredBefore [⟨.declared name, spot⟩] id other
        ↔ spot.scopes.head? = some id ∧ name.text = other := by
    simp [DeclaredBefore, Occurrence.Declares]
  obtain ⟨ids, inFunction, initializes⟩ := spot
  cases h with
  | nil => exact .nil
  | @cons scope id outer ids hscope houter =>
    rw [List.nodup_cons] at hnodup
    refine .cons (fun other => ?_) ?_
    · rw [declaredBefore_append, hdeclares, List.mem_cons, hscope other,
        or_comm, eq_comm (a := other)]
      simp
    · refine append houter fun inner hinner other hother => ?_
      obtain ⟨hhead, -⟩ := (hdeclares inner other).1 hother
      obtain rfl : id = inner := by simpa using hhead
      exact hnodup.1 hinner

end Shown

-- ======================================================== what is declared

section Declared

variable {spot : Spot} {scope : Nat} {name : String}

mutual

/-- An expression declares nothing. -/
theorem Expr.not_declared :
    (e : Expr) → ¬ DeclaredBefore (e.occurrences spot) scope name
  | .literal _ _ => by simp [occurrences, DeclaredBefore]
  | .var _ _ => by
      simp [occurrences, DeclaredBefore, Occurrence.Declares]
  | .assign _ _ value => by
      rw [occurrences, declaredBefore_append, not_or]
      refine ⟨value.not_declared, ?_⟩
      simp [DeclaredBefore, Occurrence.Declares]
  | .group _ inner => inner.not_declared
  | .unary _ _ operand => operand.not_declared
  | .binary _ _ left right | .logical _ _ left right => by
      rw [occurrences, declaredBefore_append, not_or]
      exact ⟨left.not_declared, right.not_declared⟩
  | .call _ _ callee args => by
      rw [occurrences, declaredBefore_append, not_or]
      exact ⟨callee.not_declared, not_declaredAll args⟩

/-- Nor do some expressions. -/
theorem Expr.not_declaredAll : (es : List Expr) →
    ¬ DeclaredBefore (Expr.allOccurrences spot es) scope name
  | [] => by simp [allOccurrences, DeclaredBefore]
  | e :: es => by
      rw [allOccurrences, declaredBefore_append, not_or]
      exact ⟨e.not_declared, not_declaredAll es⟩

end

theorem Expr.not_declaredOf : (e : Option Expr) →
    ¬ DeclaredBefore (Expr.occurrencesOf spot e) scope name
  | none => by simp [occurrencesOf, DeclaredBefore]
  | some e => e.not_declared

/-- A declaration, and what is met behind it. -/
theorem declaredBefore_declared_cons {declared : Name}
    {os : List Occurrence} :
    DeclaredBefore (⟨.declared declared, spot⟩ :: os) scope name
      ↔ (spot.scopes.head? = some scope ∧ declared.text = name) ∨
        DeclaredBefore os scope name := by
  simp [DeclaredBefore, Occurrence.Declares]

/-- The parameters of a function are declared in the scope of its body. -/
theorem scope_of_function {node : Node} {params : List Name}
    {body : List Stmt}
    (hbody : DeclaredBefore (Stmt.allOccurrences (spot.function node) body)
        scope name → scope ∈ Stmt.idsAll body ∨
          (spot.function node).scopes.head? = some scope)
    (h : DeclaredBefore (params.map (⟨.declared ·, spot.function node⟩) ++
      Stmt.allOccurrences (spot.function node) body) scope name) :
    scope = node.id ∨ scope ∈ Stmt.idsAll body := by
  rcases declaredBefore_append.1 h with ⟨o, ho, hhead, -⟩ | h
  · obtain ⟨param, -, rfl⟩ := List.mem_map.1 ho
    exact .inl (Option.some.inj hhead).symm
  · rcases hbody h with h | h
    · exact .inr h
    · exact .inl (Option.some.inj h).symm

mutual

/-- A statement declares in scopes of its own, and in the innermost scope
around it if it is a declaration. -/
theorem Stmt.scope_of_declared : {spot : Spot} → (s : Stmt) →
    s.WellFormed → DeclaredBefore (s.occurrences spot) scope name →
      scope ∈ s.ids ∨
        (spot.scopes.head? = some scope ∧ s.declares = true)
  | _, .expr _ e, _, h | _, .print _ e, _, h => absurd h e.not_declared
  | _, .varDecl _ _ init, _, h =>
      (declaredBefore_declared_cons.1 h).elim (fun h => .inr ⟨h.1, rfl⟩)
        fun h => absurd h (Expr.not_declaredOf init)
  | _, .funDecl _ _ _ _ _ body, hformed, h => by
      rcases declaredBefore_declared_cons.1 h with h | h
      · exact .inr ⟨h.1, rfl⟩
      · refine .inl ?_
        rcases scope_of_function (scope_of_allDeclared body hformed) h with
          rfl | h
        · exact List.mem_cons_self
        · exact .tail _ (.tail _ (.tail _ h))
  | _, .block node body, hformed, h => by
      refine .inl ?_
      rcases scope_of_allDeclared body hformed h with h | h
      · exact .tail _ h
      · obtain rfl : node.id = scope := Option.some.inj h
        exact List.mem_cons_self
  | _, .cond _ test yes none, ⟨_, hyes, hformed⟩, h => by
      rw [occurrences, declaredBefore_append] at h
      have h := h.resolve_left test.not_declared
      refine (yes.scope_of_declared hformed h).imp (fun h => ?_) fun h => ?_
      · exact .tail _ (List.mem_append_right _ h)
      · simp [hyes] at h
  | _, .cond _ test yes (some no), ⟨_, ⟨hyes, hformed⟩, hno, hformed'⟩,
      h => by
      rw [occurrences, declaredBefore_append, declaredBefore_append] at h
      rcases h.resolve_left test.not_declared with h | h
      · refine (yes.scope_of_declared hformed h).imp (fun h => ?_)
          fun h => ?_
        · exact .tail _ (List.mem_append_left _
            (List.mem_append_right _ h))
        · simp [hyes] at h
      · refine (no.scope_of_declared hformed' h).imp (fun h => ?_)
          fun h => ?_
        · exact .tail _ (List.mem_append_right _ h)
        · simp [hno] at h
  | _, .loop _ test body, ⟨_, hbody, hformed⟩, h => by
      rw [occurrences, declaredBefore_append] at h
      have h := h.resolve_left test.not_declared
      refine (body.scope_of_declared hformed h).imp (fun h => ?_) fun h => ?_
      · exact .tail _ (List.mem_append_right _ h)
      · simp [hbody] at h
  | spot, .ret _ value, _, h => by
      have hvalue :
          DeclaredBefore (Expr.occurrencesOf spot value) scope name := by
        simpa [occurrences, DeclaredBefore, Occurrence.Declares] using h
      exact absurd hvalue (Expr.not_declaredOf value)

/-- The same for some statements. -/
theorem Stmt.scope_of_allDeclared : {spot : Spot} → (ss : List Stmt) →
    AllWellFormed ss → DeclaredBefore (allOccurrences spot ss) scope name →
      scope ∈ idsAll ss ∨ spot.scopes.head? = some scope
  | _, [], _, h => by simp [allOccurrences, DeclaredBefore] at h
  | _, s :: ss, hformed, h => by
      rw [allOccurrences, declaredBefore_append] at h
      rcases h with h | h
      · exact (s.scope_of_declared hformed.1 h).imp
          (List.mem_append_left _) And.left
      · exact (scope_of_allDeclared ss hformed.2 h).imp_left
          (List.mem_append_right _)

end

end Declared

-- ============================================================= on the way

/-- A point of the walk. What was met before it is told by these lists,
and the nodes ahead are neither around nor met before. -/
structure Reached (before : List Occurrence) (spot : Spot) (scopes : Scopes)
    (ahead : List Nat) : Prop where
  shown : Shown before spot.scopes scopes
  nodup : spot.scopes.Nodup
  outside : ∀ id ∈ spot.scopes, id ∉ ahead
  unmet : ∀ id ∈ ahead, ∀ name, ¬ DeclaredBefore before id name

namespace Reached

variable {before os : List Occurrence} {spot : Spot} {scopes : Scopes}
  {ahead : List Nat} {node : Node} {name : Name}

theorem mono {ahead' : List Nat} (h : Reached before spot scopes ahead)
    (hsub : ∀ id ∈ ahead', id ∈ ahead) :
    Reached before spot scopes ahead' where
  shown := h.shown
  nodup := h.nodup
  outside id hid hahead := h.outside id hid (hsub id hahead)
  unmet id hid := h.unmet id (hsub id hid)

/-- Behind something that declares nothing, neither around nor ahead. -/
theorem append (h : Reached before spot scopes ahead)
    (hos : ∀ id name, DeclaredBefore os id name →
      id ∉ spot.scopes ∧ id ∉ ahead) :
    Reached (before ++ os) spot scopes ahead where
  shown := h.shown.append fun id hid name hdeclared =>
    (hos id name hdeclared).1 hid
  nodup := h.nodup
  outside := h.outside
  unmet id hid name hdeclared := by
    rcases declaredBefore_append.1 hdeclared with hdeclared | hdeclared
    · exact h.unmet id hid name hdeclared
    · exact (hos id name hdeclared).2 hid

/-- Behind an expression. -/
theorem past (h : Reached before spot scopes ahead) (e : Expr) :
    Reached (before ++ e.occurrences spot) spot scopes ahead :=
  h.append fun _ _ hdeclared => absurd hdeclared e.not_declared

/-- Behind a declaration. -/
theorem declare (h : Reached before spot scopes ahead) (name : Name) :
    Reached (before ++ [⟨.declared name, spot⟩]) spot
      (scopes.add name.text) ahead where
  shown := h.shown.declare h.nodup name
  nodup := h.nodup
  outside := h.outside
  unmet id hid other hdeclared := by
    rcases declaredBefore_append.1 hdeclared with hdeclared | hdeclared
    · exact h.unmet id hid other hdeclared
    · rcases declaredBefore_declared_cons.1 hdeclared with ⟨hhead, -⟩ | hnil
      · exact h.outside id (List.mem_of_mem_head? hhead) hid
      · simp [DeclaredBefore] at hnil

/-- Behind the declarations of all parameters. -/
theorem declareAll (names : List Name) {scope : Scope}
    (h : Reached before spot (scope :: scopes) ahead) :
    Reached (before ++ names.map (⟨.declared ·, spot⟩)) spot
      (((names.map Name.text).reverse ++ scope) :: scopes) ahead := by
  induction names generalizing before scope with
  | nil => simpa using h
  | cons name names ih =>
    have hrest := ih (h.declare name)
    simpa using hrest

/-- In a scope that a node ahead opens. -/
theorem enter (h : Reached before spot scopes (node.id :: ahead))
    (hnode : node.id ∉ ahead) {inner : Spot}
    (hinner : inner.scopes = node.id :: spot.scopes) :
    Reached before inner ([] :: scopes) ahead where
  shown := by
    rw [hinner]
    exact h.shown.enter (h.unmet node.id List.mem_cons_self)
  nodup := by
    rw [hinner, List.nodup_cons]
    exact ⟨fun hmem => h.outside _ hmem List.mem_cons_self, h.nodup⟩
  outside := by
    rw [hinner, List.forall_mem_cons]
    exact ⟨hnode, fun id hid hahead => h.outside id hid (.tail _ hahead)⟩
  unmet id hid := h.unmet id (.tail _ hid)

/-- Behind a statement, with more ahead. -/
theorem behind (s : Stmt) (hformed : s.WellFormed)
    (h : Reached before spot scopes (s.ids ++ ahead))
    (hnodup : (s.ids ++ ahead).Nodup) :
    Reached (before ++ s.occurrences spot) spot (s.scopesAfter scopes)
      ahead := by
  have hdisjoint := (List.nodup_append.1 hnodup).2.2
  have hrest := h.mono fun id hid => List.mem_append_right s.ids hid
  -- a scope of the statement is neither around it nor ahead
  have hown {id : Nat} (hid : id ∈ s.ids) : id ∉ spot.scopes ∧ id ∉ ahead :=
    ⟨fun hmem => h.outside id hmem (List.mem_append_left _ hid),
      fun hahead => hdisjoint id hid id hahead rfl⟩
  cases hdeclares : s.declares with
  | false =>
    rw [s.scopesAfter_of_not_declares hdeclares]
    refine hrest.append fun id name hdeclared => ?_
    rcases s.scope_of_declared hformed hdeclared with hid | ⟨-, hid⟩
    · exact hown hid
    · simp [hdeclares] at hid
  | true =>
    cases s with
    | varDecl node name init =>
      rw [Stmt.occurrences, List.append_cons]
      exact (hrest.declare name).append fun id other hdeclared =>
        absurd hdeclared (Expr.not_declaredOf init)
    | funDecl node name paramsId params bodyNode body =>
      rw [Stmt.occurrences, List.append_cons]
      refine (hrest.declare name).append fun id other hdeclared => hown ?_
      rcases scope_of_function (Stmt.scope_of_allDeclared body hformed)
        hdeclared with rfl | hid
      · exact List.mem_cons_self
      · exact .tail _ (.tail _ (.tail _ hid))
    | _ => cases hdeclares

-- ------------------------------------------------- into a statement

/-- Behind the name of a function its parameters are declared, in a scope
of its own, and behind them comes the body. -/
theorem function {paramsId : Nat} {params : List Name} {bodyNode : Node}
    {body : List Stmt} (h : Reached before spot scopes
      (Stmt.funDecl node name paramsId params bodyNode body).ids)
    (hnodup :
      (Stmt.funDecl node name paramsId params bodyNode body).ids.Nodup) :
    Reached (before ++ [⟨.declared name, spot⟩]) (spot.function node)
        ([] :: scopes.add name.text) (Stmt.idsAll body) ∧
      Reached (before ++ [⟨.declared name, spot⟩]
          ++ params.map (⟨.declared ·, spot.function node⟩))
        (spot.function node)
        ((params.map Name.text).reverse :: scopes.add name.text)
        (Stmt.idsAll body) ∧
      (Stmt.idsAll body).Nodup := by
  obtain ⟨hnode, hrest⟩ := List.nodup_cons.1 hnodup
  have hopened : Reached (before ++ [⟨.declared name, spot⟩])
      (spot.function node) ([] :: scopes.add name.text)
      (Stmt.idsAll body) := by
    refine ((h.declare name).mono fun id hid => ?_).enter
      (fun hmem => hnode (.tail _ (.tail _ hmem))) rfl
    rcases List.mem_cons.1 hid with rfl | hid
    · exact List.mem_cons_self
    · exact .tail _ (.tail _ (.tail _ hid))
  have hparams := hopened.declareAll params
  rw [List.append_nil] at hparams
  exact ⟨hopened, hparams, (List.nodup_cons.1 (List.nodup_cons.1 hrest).2).2⟩

/-- A block is a scope of its own. -/
theorem block {body : List Stmt}
    (h : Reached before spot scopes (Stmt.block node body).ids)
    (hnodup : (Stmt.block node body).ids.Nodup) :
    Reached before (spot.block node) ([] :: scopes) (Stmt.idsAll body) ∧
      (Stmt.idsAll body).Nodup := by
  obtain ⟨hnode, hbody⟩ := List.nodup_cons.1 hnodup
  exact ⟨h.enter hnode rfl, hbody⟩

/-- Behind a condition comes what it decides about. -/
theorem tested {test : Expr} {ids : List Nat}
    (h : Reached before spot scopes (node.id :: (test.ids ++ ids)))
    (hnodup : (node.id :: (test.ids ++ ids)).Nodup) :
    Reached (before ++ test.occurrences spot) spot scopes ids ∧ ids.Nodup :=
  ⟨(h.past test).mono fun _ hid => .tail _ (List.mem_append_right _ hid),
    (List.nodup_append.1 (List.nodup_cons.1 hnodup).2).2.1⟩

/-- Behind one branch comes the other, in the same scopes. -/
theorem branches {yes no : Stmt} (hformed : yes.WellFormed)
    (hdeclares : yes.declares = false)
    (h : Reached before spot scopes (yes.ids ++ no.ids))
    (hnodup : (yes.ids ++ no.ids).Nodup) :
    (Reached before spot scopes yes.ids ∧ yes.ids.Nodup) ∧
      Reached (before ++ yes.occurrences spot) spot scopes no.ids ∧
        no.ids.Nodup := by
  obtain ⟨hyes, hno, -⟩ := List.nodup_append.1 hnodup
  have hbehind := h.behind yes hformed hnodup
  rw [yes.scopesAfter_of_not_declares hdeclares] at hbehind
  exact ⟨⟨h.mono fun _ hid => List.mem_append_left _ hid, hyes⟩, hbehind, hno⟩

/-- Behind a statement come the others. -/
theorem split {s : Stmt} {ss : List Stmt} (hformed : s.WellFormed)
    (h : Reached before spot scopes (Stmt.idsAll (s :: ss)))
    (hnodup : (Stmt.idsAll (s :: ss)).Nodup) :
    (Reached before spot scopes s.ids ∧ s.ids.Nodup) ∧
      Reached (before ++ s.occurrences spot) spot (s.scopesAfter scopes)
          (Stmt.idsAll ss) ∧
        (Stmt.idsAll ss).Nodup := by
  obtain ⟨hs, hss, -⟩ := List.nodup_append.1 hnodup
  exact ⟨⟨h.mono fun _ hid => List.mem_append_left _ hid, hs⟩,
    h.behind s hformed hnodup, hss⟩

/-- A return declares nothing. -/
theorem returned (h : Reached before spot scopes ahead) (node : Node) :
    Reached (before ++ [⟨.returned node, spot⟩]) spot scopes ahead :=
  h.append fun id name hdeclared => by
    simp [DeclaredBefore, Occurrence.Declares] at hdeclared

/-- Where a walk starts, nothing was met. -/
theorem start (ids : List Nat) : Reached [] .top [] ids where
  shown := .nil
  nodup := .nil
  outside := nofun
  unmet _ _ _ := by simp [DeclaredBefore]

end Reached

-- =============================================================== programs

/-- A program that was read is formed as the grammar has it, and no two
nodes of it have the same number. -/
theorem formed_of_parse {ts : List Token} {eof : Token} {n n' : Nat}
    {program : List Stmt} (heof : eof.kind = .endOfText)
    (hts : ∀ t ∈ ts, t.kind ≠ .endOfText)
    (h : parse (ts ++ [eof]) n = ⟨.ok program, n'⟩) :
    Stmt.AllWellFormed program ∧ (Stmt.idsAll program).Nodup :=
  have hs := spells_of_parse heof hts h
  ⟨hs.shaped, hs.numbered.nodup⟩

end Lox
