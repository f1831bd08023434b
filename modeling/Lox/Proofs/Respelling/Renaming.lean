/-
One local variable gets another name. Its declaration is found by its
node, and a use of it by the depth that was recorded at the use: the
depth leads to a scope, and in that scope to the declaration of the name
(`Surroundings.declarationAt`). The name is replaced in the declaration
and in just these uses (`Stmt.renameAll`).

If the new name occurs nowhere in the program, what comes of this is a
respelling (`Stmt.respelled_rename`): before the renamed declaration no
scope on the way has the new name, and a declaration of the old name
further in or further out is left as it was, together with its uses.
-/
import Lox.Proofs.Respelling.Trees
import Lox.Proofs.Scoping.Table

namespace Lox

-- =========================================================== declarations

/-- What declares a local name. -/
inductive DeclarationKind where
  | var
  | param
  | fn
deriving Repr, DecidableEq

/-- A declaration of a local name. -/
structure Declaration where
  kind : DeclarationKind
  /-- The identity of the node that declares the name; that of the list
  for a parameter. -/
  node : Nat
  name : String
deriving Repr, DecidableEq

theorem Declaration.name_of_find? {ds : List Declaration} {name : String}
    {d : Declaration} (h : ds.find? (·.name = name) = some d) :
    d.name = name := by
  simpa using List.find?_some h

/-- The declarations so far in the local scopes around a place, the
innermost scope and the latest declaration first. -/
abbrev Surroundings := List (List Declaration)

namespace Surroundings

/-- What is around behind a declaration; nothing at the top level. -/
def add (around : Surroundings) (d : Declaration) : Surroundings :=
  match around with
  | [] => []
  | scope :: outer => (d :: scope) :: outer

/-- The declaration of the name in the scope so far out. -/
def declarationAt (around : Surroundings) (name : String) (depth : Nat) :
    Option Declaration :=
  around[depth]?.bind fun scope => scope.find? (·.name = name)

/-- The names in the scopes. -/
def scopes (around : Surroundings) : Scopes :=
  around.map (·.map Declaration.name)

end Surroundings

/-- The declaration of a variable. -/
def Declaration.ofVar (node : Node) (name : Name) : Declaration :=
  ⟨.var, node.id, name.text⟩

/-- The declaration of a function. -/
def Declaration.ofFunction (node : Node) (name : Name) : Declaration :=
  ⟨.fn, node.id, name.text⟩

/-- The declaration of a parameter in a list of parameters. -/
def Declaration.ofParam (paramsId : Nat) (name : Name) : Declaration :=
  ⟨.param, paramsId, name.text⟩

/-- What is around the body of a function. -/
def Surroundings.withParams (around : Surroundings) (paramsId : Nat)
    (params : List Name) : Surroundings :=
  (params.map (Declaration.ofParam paramsId)).reverse :: around

/-- What is around behind a statement. -/
def Stmt.around (around : Surroundings) : Stmt → Surroundings
  | .varDecl node name _ => around.add (.ofVar node name)
  | .funDecl node name _ _ _ _ => around.add (.ofFunction node name)
  | _ => around

mutual

/-- The variables and parameters that a statement declares in local
scopes. -/
def Stmt.localVariables (nested : Bool) : Stmt → List Declaration
  | .varDecl node name _ => if nested then [.ofVar node name] else []
  | .funDecl _ _ paramsId params _ body =>
      params.map (.ofParam paramsId) ++ allLocalVariables true body
  | .block _ body => allLocalVariables true body
  | .cond _ _ yes none => yes.localVariables nested
  | .cond _ _ yes (some no) =>
      yes.localVariables nested ++ no.localVariables nested
  | .loop _ _ body => body.localVariables nested
  | .expr _ _ | .print _ _ | .ret _ _ => []

/-- The variables and parameters that some statements declare in local
scopes. -/
def Stmt.allLocalVariables (nested : Bool) :
    List Stmt → List Declaration
  | [] => []
  | s :: ss => s.localVariables nested ++ allLocalVariables nested ss

end

/-- The variables and parameters of a program in local scopes. -/
abbrev localVariables (program : List Stmt) : List Declaration :=
  Stmt.allLocalVariables false program

-- ================================================================== names

mutual

/-- The names that occur in an expression. -/
def Expr.names : Expr → List String
  | .literal _ _ => []
  | .var _ name => [name]
  | .assign _ name e => name :: e.names
  | .group _ e | .unary _ _ e => e.names
  | .binary _ _ a b | .logical _ _ a b => a.names ++ b.names
  | .call _ _ callee args => callee.names ++ allNames args

/-- The names that occur in some expressions. -/
def Expr.allNames : List Expr → List String
  | [] => []
  | e :: es => e.names ++ allNames es

end

/-- The names that occur in an expression that may be missing. -/
def Expr.namesOf : Option Expr → List String
  | none => []
  | some e => e.names

mutual

/-- The names that occur in a statement. -/
def Stmt.names : Stmt → List String
  | .expr _ e | .print _ e => e.names
  | .varDecl _ name init => name.text :: Expr.namesOf init
  | .funDecl _ name _ params _ body =>
      name.text :: (params.map Name.text ++ allNames body)
  | .block _ body => allNames body
  | .cond _ test yes none => test.names ++ yes.names
  | .cond _ test yes (some no) => test.names ++ (yes.names ++ no.names)
  | .loop _ test body => test.names ++ body.names
  | .ret _ value => Expr.namesOf value

/-- The names that occur in some statements. -/
def Stmt.allNames : List Stmt → List String
  | [] => []
  | s :: ss => s.names ++ allNames ss

end

-- =============================================================== renaming

/-- A declaration, the name that it gets instead, and the depths recorded
for the uses. -/
structure Renaming where
  declaration : Declaration
  newName : String
  depths : Depths

namespace Renaming

variable (R : Renaming)

/-- The name that a declaration has then. -/
def declared (d : Declaration) : String :=
  if d = R.declaration then R.newName else d.name

/-- The same where there may be no local scope; a global keeps its
name. -/
def declaredIn (around : Surroundings) (d : Declaration) : String :=
  if around.isEmpty then d.name else R.declared d

/-- The depth recorded at the node leads to the declaration. -/
def LeadsThere (around : Surroundings) (node : Node) (name : String) :
    Prop :=
  R.depths[node.id]?.bind (around.declarationAt name) = some R.declaration

instance (around : Surroundings) (node : Node) (name : String) :
    Decidable (R.LeadsThere around node name) :=
  inferInstanceAs (Decidable (_ = _))

/-- The name that a use has then. -/
def used (around : Surroundings) (node : Node) (name : String) : String :=
  if R.LeadsThere around node name then R.newName else name

end Renaming

mutual

/-- The expression with the local variable renamed. -/
def Expr.rename (R : Renaming) (around : Surroundings) : Expr → Expr
  | .literal node value => .literal node value
  | .var node name => .var node (R.used around node name)
  | .assign node name e =>
      .assign node (R.used around node name) (e.rename R around)
  | .group node e => .group node (e.rename R around)
  | .unary node op e => .unary node op (e.rename R around)
  | .binary node op a b =>
      .binary node op (a.rename R around) (b.rename R around)
  | .logical node op a b =>
      .logical node op (a.rename R around) (b.rename R around)
  | .call node argsId callee args =>
      .call node argsId (callee.rename R around) (renameAll R around args)

/-- The expressions with the local variable renamed. -/
def Expr.renameAll (R : Renaming) (around : Surroundings) :
    List Expr → List Expr
  | [] => []
  | e :: es => e.rename R around :: renameAll R around es

end

mutual

/-- The statement with the local variable renamed. -/
def Stmt.rename (R : Renaming) (around : Surroundings) : Stmt → Stmt
  | .expr node e => .expr node (e.rename R around)
  | .print node e => .print node (e.rename R around)
  | .varDecl node name init =>
      .varDecl node ⟨R.declaredIn around (.ofVar node name), name.pos⟩
        (init.map (·.rename R (around.add (.ofVar node name))))
  | .funDecl node name paramsId params bodyNode body =>
      .funDecl node name paramsId
        (params.map fun p => ⟨R.declared (.ofParam paramsId p), p.pos⟩)
        bodyNode
        (renameAll R ((around.add (.ofFunction node name)).withParams
          paramsId params) body)
  | .block node body => .block node (renameAll R ([] :: around) body)
  | .cond node test yes none =>
      .cond node (test.rename R around) (yes.rename R around) none
  | .cond node test yes (some no) =>
      .cond node (test.rename R around) (yes.rename R around)
        (some (no.rename R around))
  | .loop node test body =>
      .loop node (test.rename R around) (body.rename R around)
  | .ret node value => .ret node (value.map (·.rename R around))

/-- The statements with the local variable renamed. -/
def Stmt.renameAll (R : Renaming) (around : Surroundings) :
    List Stmt → List Stmt
  | [] => []
  | s :: ss => s.rename R around :: renameAll R (s.around around) ss

end

-- ================================================== the declarations then

/-- The declaration with the name that it has then. -/
def Renaming.renamed (R : Renaming) (d : Declaration) : Declaration :=
  { d with name := R.declared d }

section Declared

variable {R : Renaming}

theorem Renaming.declaredIn_of_nested {around : Surroundings}
    (h : around.isEmpty = false) (d : Declaration) :
    R.declaredIn around d = R.declared d := by
  rw [declaredIn, h]
  rfl

theorem Stmt.isEmpty_around (around : Surroundings) (s : Stmt) :
    (s.around around).isEmpty = around.isEmpty := by
  cases s <;> first | rfl | cases around <;> rfl

mutual

/-- Renaming keeps the declarations in their order: the variables declared
below are the ones declared before, each under its new name. -/
theorem Stmt.localVariables_rename : {around : Surroundings} →
    {nested : Bool} → around.isEmpty = !nested → (s : Stmt) →
      (s.rename R around).localVariables nested
        = (s.localVariables nested).map R.renamed
  | _, _, _, .expr _ _ | _, _, _, .print _ _ | _, _, _, .ret _ _ => rfl
  | around, nested, h, .varDecl node name init => by
      cases nested with
      | false => rfl
      | true =>
        show [_] = [_]
        rw [Renaming.declaredIn_of_nested h]
        rfl
  | _, _, _, .funDecl _ _ paramsId params _ body => by
      rw [rename, localVariables, localVariables, List.map_append,
        allLocalVariables_rename rfl body, List.map_map, List.map_map]
      rfl
  | _, _, _, .block _ body => allLocalVariables_rename rfl body
  | _, _, h, .cond _ _ yes none => yes.localVariables_rename h
  | _, _, h, .cond _ _ yes (some no) => by
      rw [rename, localVariables, localVariables, List.map_append,
        yes.localVariables_rename h, no.localVariables_rename h]
  | _, _, h, .loop _ _ body => body.localVariables_rename h

/-- The declaration has the new name then, and every other one the name
that it had. -/
theorem Stmt.allLocalVariables_rename : {around : Surroundings} →
    {nested : Bool} → around.isEmpty = !nested → (ss : List Stmt) →
      Stmt.allLocalVariables nested (Stmt.renameAll R around ss)
        = (Stmt.allLocalVariables nested ss).map R.renamed
  | _, _, _, [] => rfl
  | around, _, h, s :: ss => by
      rw [renameAll, allLocalVariables, allLocalVariables, List.map_append,
        s.localVariables_rename h, allLocalVariables_rename
          ((s.isEmpty_around around).trans h) ss]

end

end Declared

-- ========================================================= what is around

namespace Surroundings

variable {around : Surroundings}

@[simp] theorem scopes_add (d : Declaration) :
    (around.add d).scopes = around.scopes.add d.name := by
  cases around <;> rfl

/-- The parameters are the innermost scope around a body, the last of them in
front. -/
theorem scopes_withParams (paramsId : Nat) (params : List Name) :
    (around.withParams paramsId params).scopes
      = (params.map Name.text).reverse :: around.scopes := by
  show List.map _ _ :: around.scopes = _
  rw [List.map_reverse, List.map_map]
  rfl

/-- The depth of a name leads to its first declaration on the way out,
if there is one. -/
theorem declarationAt_depth? (around : Surroundings) (name : String) :
    (around.scopes.depth? name).bind (around.declarationAt name)
      = around.flatten.find? (·.name = name) := by
  induction around with
  | nil => rfl
  | cons scope outer ih =>
    show (Scopes.depth? (_ :: scopes outer) name).bind _ = _
    rw [Scopes.depth?_cons, List.flatten_cons, List.find?_append, ← ih]
    cases hfind : scope.find? (·.name = name) with
    | some d =>
      have hmem : name ∈ scope.map Declaration.name := by
        exact List.mem_map.2 ⟨d, List.mem_of_find?_eq_some hfind,
          Declaration.name_of_find? hfind⟩
      rw [if_pos hmem]
      exact hfind
    | none =>
      have hout : name ∉ scope.map Declaration.name := by
        intro hmem
        obtain ⟨d, hd, rfl⟩ := List.mem_map.1 hmem
        exact List.find?_eq_none.1 hfind d hd (decide_eq_true rfl)
      rw [if_neg hout, Option.none_or]
      cases (scopes outer).depth? name <;> rfl

/-- This name is nowhere declared around. -/
def Lacks (around : Surroundings) (name : String) : Prop :=
  ∀ d ∈ around.flatten, d.name ≠ name

theorem Lacks.add {name : String} (h : around.Lacks name) {d : Declaration}
    (hd : d.name ≠ name) : (around.add d).Lacks name := by
  cases around with
  | nil => exact h
  | cons scope outer => exact List.forall_mem_cons.2 ⟨hd, h⟩

theorem Lacks.withParams {name : String} (h : around.Lacks name)
    {paramsId : Nat} {params : List Name}
    (hparams : name ∉ params.map Name.text) :
    (around.withParams paramsId params).Lacks name := by
  intro d hd
  rcases List.mem_append.1 (List.flatten_cons ▸ hd) with hd | hd
  · obtain ⟨p, hp, rfl⟩ := List.mem_map.1 (List.mem_reverse.1 hd)
    rintro rfl
    exact hparams (List.mem_map_of_mem hp)
  · exact h d hd

end Surroundings

-- ========================================================= a respelling

namespace Renaming

variable (R : Renaming)

/-- What is written for what. -/
def respelling : Respelling := ⟨R.declaration.name, R.newName⟩

/-- The names around in both programs. -/
def pairs (around : Surroundings) : NamePairs :=
  around.map (·.map fun d => (d.name, R.declared d))

variable {R}

/-- Two declarations of different names have different names after renaming,
for neither was called the new name before. -/
theorem declared_ne {d d' : Declaration} (h : d.name ≠ d'.name)
    (hd : d.name ≠ R.newName) (hd' : d'.name ≠ R.newName) :
    R.declared d ≠ R.declared d' := by
  unfold declared
  split
  · next heq =>
    rw [if_neg fun heq' => h (by rw [heq, heq'])]
    exact Ne.symm hd'
  · split
    · exact hd
    · exact h

/-- To write the new name for the first declaration of a name, if that is
the one that has it, does not change the meaning of the name. -/
theorem sameMeaning_declared {name : String} (hname : name ≠ R.newName)
    {ds : List Declaration} (hds : ∀ d ∈ ds, d.name ≠ R.newName) :
    SameMeaning (ds.map fun d => (d.name, R.declared d)) name
      (((ds.find? (·.name = name)).map R.declared).getD name) := by
  induction ds with
  | nil => rfl
  | cons d ds ih =>
    rw [List.forall_mem_cons] at hds
    rw [List.find?_cons]
    by_cases hd : d.name = name
    · rw [decide_eq_true hd]
      exact .inl ⟨hd, rfl⟩
    · rw [decide_eq_false hd]
      refine .inr ⟨hd, ?_, ih hds.2⟩
      cases hfind : ds.find? (·.name = name) with
      | some d' =>
        have hd' := Declaration.name_of_find? hfind
        exact declared_ne (hd' ▸ hd) hds.1 (hd' ▸ hname)
      | none =>
        show R.declared d ≠ name
        unfold declared
        split
        · exact Ne.symm hname
        · exact hd

variable {around : Surroundings}

@[simp] theorem pairs_add (d : Declaration) :
    R.pairs (around.add d)
      = (R.pairs around).add d.name (R.declaredIn around d) := by
  cases around <;> rfl

/-- A use means the same as before. -/
theorem use_used {node : Node} {name : String}
    (hdepth : R.depths[node.id]? = around.scopes.depth? name)
    (hname : name ≠ R.newName) (haround : around.Lacks R.newName) :
    (R.pairs around).Use R.respelling name (R.used around node name) := by
  -- The depth leads to the first declaration of the name around the use.
  have hleads : R.LeadsThere around node name
      ↔ around.flatten.find? (·.name = name) = some R.declaration := by
    rw [LeadsThere, hdepth, around.declarationAt_depth? name]
  have hused : R.used around node name
      = ((around.flatten.find? (·.name = name)).map R.declared).getD
          name := by
    unfold used
    cases hfind : around.flatten.find? (·.name = name) with
    | none =>
      rw [hfind] at hleads
      exact if_neg fun h => nomatch hleads.1 h
    | some d =>
      have hd := Declaration.name_of_find? hfind
      rw [hfind, Option.some_inj] at hleads
      show _ = R.declared d
      unfold declared
      by_cases heq : d = R.declaration
      · rw [if_pos (hleads.2 heq), if_pos heq]
      · rw [if_neg (mt hleads.1 heq), if_neg heq, hd]
  constructor
  · have hsame := sameMeaning_declared hname haround
    rw [← hused, List.map_flatten] at hsame
    exact hsame
  · unfold used
    split
    · next h =>
      exact .inr ⟨(Declaration.name_of_find? (hleads.1 h)).symm, rfl⟩
    · exact .inl rfl

/-- A declaration is as new in its scope as before. -/
theorem declares_declaredIn {d : Declaration}
    (hfresh : around.scopes.Fresh d.name) (hd : d.name ≠ R.newName)
    (haround : around.Lacks R.newName) :
    (R.pairs around).Declares d.name (R.declaredIn around d) := by
  cases around with
  | nil => rfl
  | cons scope outer =>
    have hout : d.name ∉ scope.map Declaration.name := hfresh _ rfl
    show d.name ∈ (scope.map fun e => (e.name, R.declared e)).map Prod.fst
      ↔ R.declared d
        ∈ (scope.map fun e => (e.name, R.declared e)).map Prod.snd
    rw [List.map_map, List.map_map]
    refine iff_of_false hout fun hmem => ?_
    obtain ⟨e, he, heq⟩ := List.mem_map.1 hmem
    refine declared_ne (fun hname => hout ?_)
      (haround e (List.mem_append_left _ he)) hd heq
    exact List.mem_map.2 ⟨e, he, hname⟩

/-- The name of a function is left as it is. -/
theorem declaredIn_ofFunction (hkind : R.declaration.kind ≠ .fn)
    (node : Node) (name : Name) :
    R.declaredIn around (.ofFunction node name) = name.text := by
  have hne : Declaration.ofFunction node name ≠ R.declaration :=
    fun heq => hkind (heq ▸ rfl)
  unfold declaredIn declared
  rw [if_neg hne, ite_self]
  rfl

/-- Parameters are declared as before. -/
theorem params_withParams {paramsId : Nat} {params : List Name}
    (hnodup : (params.map Name.text).Nodup)
    (hparams : R.newName ∉ params.map Name.text)
    (haround : around.Lacks R.newName) :
    NamePairs.Params (R.pairs ([] :: around)) (params.map Name.text)
      ((params.map fun p =>
        (⟨R.declared (.ofParam paramsId p), p.pos⟩ : Name)).map Name.text)
      (R.pairs (around.withParams paramsId params)) := by
  -- The parameters in front are in the scope already.
  have hall : ∀ (ps : List Name) (scope : List Declaration),
      (ps.map Name.text).Nodup → R.newName ∉ ps.map Name.text →
      (∀ p ∈ ps, p.text ∉ scope.map Declaration.name) →
      Surroundings.Lacks (scope :: around) R.newName →
      NamePairs.Params (R.pairs (scope :: around)) (ps.map Name.text)
        ((ps.map fun p =>
          (⟨R.declared (.ofParam paramsId p), p.pos⟩ : Name)).map Name.text)
        (R.pairs (((ps.map (Declaration.ofParam paramsId)).reverse ++ scope)
          :: around)) := by
    intro ps
    induction ps with
    | nil => exact fun scope _ _ _ _ => .nil
    | cons p ps ih =>
      intro scope hnodup hnew hout hlacks
      rw [List.map_cons, List.nodup_cons] at hnodup
      rw [List.map_cons, List.mem_cons, not_or] at hnew
      rw [List.forall_mem_cons] at hout
      have hfresh : (Surroundings.scopes (scope :: around)).Fresh p.text := by
        intro names hnames
        obtain rfl := Option.mem_some.1 hnames
        exact hout.1
      have hd : (Declaration.ofParam paramsId p).name ≠ R.newName :=
        fun heq => hnew.1 heq.symm
      have hfirst : (R.pairs (scope :: around)).Declares p.text
          (R.declaredIn (scope :: around) (.ofParam paramsId p)) :=
        declares_declaredIn hfresh hd hlacks
      have hrest := ih (.ofParam paramsId p :: scope) hnodup.2 hnew.2
        (fun q hq => by
          rw [List.map_cons, List.mem_cons, not_or]
          exact ⟨fun heq => hnodup.1 (List.mem_map.2 ⟨q, hq, heq⟩),
            hout.2 q hq⟩)
        (hlacks.add hd)
      rw [List.append_cons, ← List.reverse_cons] at hrest
      exact .cons hfirst hrest
  have hparams := hall params [] hnodup hparams (fun _ _ => nofun) haround
  rw [List.append_nil] at hparams
  exact hparams

end Renaming

open Surroundings (scopes_withParams)

variable {R : Renaming}

/-- The depths recorded, as a table. -/
abbrev Renaming.table (R : Renaming) : Table := fun id => R.depths[id]?

mutual

/-- One case per expression. A variable is renamed just if the declaration
it stands for is, and the new name occurs nowhere, so nothing else is
captured. -/
theorem Expr.respelled_rename {around : Surroundings}
    {pending : Option String} (haround : around.Lacks R.newName) :
    (e : Expr) → e.Bound R.table around.scopes pending →
      R.newName ∉ e.names →
      e.Respelled R.respelling (R.pairs around) (e.rename R around)
  | .literal _ _, _, _ => .literal
  | .var _ name, h, hnew =>
      .var (R.use_used h.2 (fun heq => hnew (by simp [names, heq])) haround)
  | .assign _ name e, h, hnew => by
      rw [names, List.mem_cons, not_or] at hnew
      exact .assign (e.respelled_rename haround h.1 hnew.2)
        (R.use_used h.2 (Ne.symm hnew.1) haround)
  | .group _ e, h, hnew => .group (e.respelled_rename haround h hnew)
  | .unary _ _ e, h, hnew => .unary (e.respelled_rename haround h hnew)
  | .binary _ _ a b, h, hnew => by
      rw [names, List.mem_append, not_or] at hnew
      exact .binary (a.respelled_rename haround h.1 hnew.1)
        (b.respelled_rename haround h.2 hnew.2)
  | .logical _ _ a b, h, hnew => by
      rw [names, List.mem_append, not_or] at hnew
      exact .logical (a.respelled_rename haround h.1 hnew.1)
        (b.respelled_rename haround h.2 hnew.2)
  | .call _ _ callee args, h, hnew => by
      rw [names, List.mem_append, not_or] at hnew
      exact .call (callee.respelled_rename haround h.1 hnew.1)
        (allRespelled_rename haround args h.2 hnew.2)

theorem Expr.allRespelled_rename {around : Surroundings}
    {pending : Option String} (haround : around.Lacks R.newName) :
    (es : List Expr) → Expr.AllBound R.table around.scopes pending es →
      R.newName ∉ Expr.allNames es →
      Expr.AllRespelled R.respelling (R.pairs around) es
        (Expr.renameAll R around es)
  | [], _, _ => .nil
  | e :: es, h, hnew => by
      rw [allNames, List.mem_append, not_or] at hnew
      exact .cons (e.respelled_rename haround h.1 hnew.1)
        (allRespelled_rename haround es h.2 hnew.2)

end

theorem Expr.optionRespelled_rename {around : Surroundings}
    {pending : Option String} (haround : around.Lacks R.newName)
    {e : Option Expr}
    (h : ∀ e' ∈ e, e'.Bound R.table around.scopes pending)
    (hnew : R.newName ∉ Expr.namesOf e) :
    Expr.OptionRespelled R.respelling (R.pairs around) e
      (e.map (·.rename R around)) := by
  cases e with
  | none => exact .none
  | some e => exact .some (e.respelled_rename haround (h e rfl) hnew)

mutual

/-- With a local variable renamed, a statement is respelled. -/
theorem Stmt.respelled_rename (hkind : R.declaration.kind ≠ .fn) :
    {around : Surroundings} → around.Lacks R.newName → (s : Stmt) →
      s.Bound R.table around.scopes → R.newName ∉ s.names →
      s.Respelled R.respelling (R.pairs around) (s.rename R around)
        (R.pairs (s.around around))
  | _, haround, .expr _ e, h, hnew =>
      .expr (e.respelled_rename haround h hnew)
  | _, haround, .print _ e, h, hnew =>
      .print (e.respelled_rename haround h hnew)
  | around, haround, .varDecl node name init, h, hnew => by
      rw [names, List.mem_cons, not_or] at hnew
      have hd : (Declaration.ofVar node name).name ≠ R.newName :=
        Ne.symm hnew.1
      have hbound : ∀ e ∈ init, e.Bound R.table
          (around.add (.ofVar node name)).scopes
          (around.scopes.pending name.text) := by
        rw [Surroundings.scopes_add]
        exact h.2
      have hinit :=
        Expr.optionRespelled_rename (haround.add hd) hbound hnew.2
      rw [Renaming.pairs_add] at hinit
      rw [rename, Stmt.around, Renaming.pairs_add]
      exact .varDecl (R.declares_declaredIn h.1 hd haround) hinit
  | around, haround, .funDecl node name paramsId params _ body, h, hnew => by
      rw [names, List.mem_cons, List.mem_append, not_or, not_or] at hnew
      obtain ⟨hname, hparams, hbody⟩ := hnew
      have hd : (Declaration.ofFunction node name).name ≠ R.newName :=
        Ne.symm hname
      have hlacks := haround.add hd
      have hinner : NamePairs.Params
          (R.pairs ([] :: around.add (.ofFunction node name))) _ _
          (R.pairs ((around.add (.ofFunction node name)).withParams paramsId
            params)) :=
        R.params_withParams h.2.1 hparams hlacks
      have hbound : Stmt.AllBound R.table
          ((around.add (.ofFunction node name)).withParams paramsId
            params).scopes body := by
        rw [scopes_withParams, Surroundings.scopes_add]
        exact h.2.2
      have hbody := allRespelled_rename hkind (hlacks.withParams hparams) body
        hbound hbody
      have hdeclared := R.declares_declaredIn h.1 hd haround
      -- No function is renamed.
      have hnamed : R.declaredIn around (.ofFunction node name) = name.text :=
        Renaming.declaredIn_ofFunction hkind node name
      have hpairs : R.pairs (around.add (.ofFunction node name))
          = (R.pairs around).add name.text name.text := by
        rw [Renaming.pairs_add, hnamed]
        rfl
      rw [hnamed] at hdeclared
      rw [rename, Stmt.around, hpairs]
      refine .funDecl hdeclared ?_ hbody
      rw [← hpairs]
      exact hinner
  | around, haround, .block _ body, h, hnew =>
      have hinside : Surroundings.Lacks ([] :: around) R.newName := haround
      .block (allRespelled_rename hkind hinside body h hnew)
  | _, haround, .cond _ test yes none, h, hnew => by
      rw [names, List.mem_append, not_or] at hnew
      exact .cond (test.respelled_rename haround h.1 hnew.1)
        (yes.respelled_rename hkind haround h.2 hnew.2)
  | _, haround, .cond _ test yes (some no), h, hnew => by
      rw [names, List.mem_append, List.mem_append, not_or, not_or] at hnew
      exact .condElse (test.respelled_rename haround h.1 hnew.1)
        (yes.respelled_rename hkind haround h.2.1 hnew.2.1)
        (no.respelled_rename hkind haround h.2.2 hnew.2.2)
  | _, haround, .loop _ test body, h, hnew => by
      rw [names, List.mem_append, not_or] at hnew
      exact .loop (test.respelled_rename haround h.1 hnew.1)
        (body.respelled_rename hkind haround h.2 hnew.2)
  | _, haround, .ret _ value, h, hnew =>
      .ret (Expr.optionRespelled_rename haround h hnew)

/-- With a local variable renamed, statements are respelled. -/
theorem Stmt.allRespelled_rename (hkind : R.declaration.kind ≠ .fn) :
    {around : Surroundings} → around.Lacks R.newName → (ss : List Stmt) →
      Stmt.AllBound R.table around.scopes ss →
      R.newName ∉ Stmt.allNames ss →
      Stmt.AllRespelled R.respelling (R.pairs around) ss
        (Stmt.renameAll R around ss)
  | _, _, [], _, _ => .nil
  | around, haround, s :: ss, h, hnew => by
      rw [allNames, List.mem_append, not_or] at hnew
      refine .cons (s.respelled_rename hkind haround h.1 hnew.1) ?_
      have hscopes : (s.around around).scopes
          = s.scopesAfter around.scopes := by
        cases s <;> first | rfl | exact Surroundings.scopes_add _
      have hlacks : (s.around around).Lacks R.newName := by
        cases s with
        | varDecl node name init =>
          exact haround.add fun heq => hnew.1 (heq ▸ .head _)
        | funDecl node name paramsId params bodyNode body =>
          exact haround.add fun heq => hnew.1 (heq ▸ .head _)
        | _ => exact haround
      exact allRespelled_rename hkind hlacks ss (hscopes ▸ h.2) hnew.2

end

end Lox
