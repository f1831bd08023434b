/-
Programs that differ in the spelling of local names alone. Two trees are
gone through side by side, with the names that they declare at the same
places in the scopes around (`NamePairs`). A use of a name in one tree
goes with a use in the other if both mean the declaration at the same
place, or if neither means a local one and both are spelled alike
(`SameMeaning`). Nothing else may differ: not the nodes, and not the
names of functions and of globals, which can be seen.

# One spelling at a time

A use that fails shows its name, so the relation also says which name may
stand for which other one (`Respelling`). Every program is respelled by
itself, whatever may stand for what (`Stmt.respelled_self`).
-/
import Lox.Proofs.Scoping.Bound

namespace Lox

-- ================================================================== names

/-- A name, and what may be written in its stead. -/
structure Respelling where
  old : String
  new : String

/-- The names are the same, or the second is written for the first. -/
def Respelling.Allows (r : Respelling) (name name' : String) : Prop :=
  name' = name ∨ name = r.old ∧ name' = r.new

/-- The first of these pairs with one of the names has both of them, or
no pair has any and the names are the same. -/
def SameMeaning : List (String × String) → String → String → Prop
  | [], name, name' => name' = name
  | (a, a') :: pairs, name, name' =>
      a = name ∧ a' = name' ∨
        a ≠ name ∧ a' ≠ name' ∧ SameMeaning pairs name name'

/-- The names that two programs have declared so far in the local scopes
around a place, the innermost scope and the latest name first. -/
abbrev NamePairs := List (List (String × String))

namespace NamePairs

/-- The scopes of the first program. -/
def left (Γ : NamePairs) : Scopes := Γ.map (·.map Prod.fst)

/-- The scopes of the second program. -/
def right (Γ : NamePairs) : Scopes := Γ.map (·.map Prod.snd)

/-- The names behind two declarations; at the top level there are none. -/
def add (Γ : NamePairs) (name name' : String) : NamePairs :=
  match Γ with
  | [] => []
  | scope :: outer => ((name, name') :: scope) :: outer

/-- The one name may be declared where the other is: it names a global as
the other does, or it is as new in its scope as the other is. -/
def Declares (Γ : NamePairs) (name name' : String) : Prop :=
  match Γ with
  | [] => name' = name
  | scope :: _ => name ∈ scope.map Prod.fst ↔ name' ∈ scope.map Prod.snd

/-- The one name may be used where the other is. -/
structure Use (r : Respelling) (Γ : NamePairs) (name name' : String) :
    Prop where
  meaning : SameMeaning Γ.flatten name name'
  allowed : r.Allows name name'

/-- The parameters are declared one after another, as are those of the
other program. -/
inductive Params : NamePairs → List String → List String → NamePairs → Prop
  | nil {Γ : NamePairs} : Params Γ [] [] Γ
  | cons {Γ inner : NamePairs} {name name' : String}
      {names names' : List String} (hname : Γ.Declares name name')
      (hnames : Params (Γ.add name name') names names' inner) :
      Params Γ (name :: names) (name' :: names') inner

end NamePairs

-- ================================================================== trees

open NamePairs (Params)

section Respelled

variable (r : Respelling)

mutual

/-- The expressions differ in the spelling of local names alone. -/
inductive Expr.Respelled (Γ : NamePairs) : Expr → Expr → Prop
  | literal {node : Node} {value : Literal} :
      Respelled Γ (.literal node value) (.literal node value)
  | var {node : Node} {name name' : String} (h : Γ.Use r name name') :
      Respelled Γ (.var node name) (.var node name')
  | assign {node : Node} {name name' : String} {e e' : Expr}
      (he : Respelled Γ e e') (h : Γ.Use r name name') :
      Respelled Γ (.assign node name e) (.assign node name' e')
  | group {node : Node} {e e' : Expr} (he : Respelled Γ e e') :
      Respelled Γ (.group node e) (.group node e')
  | unary {node : Node} {op : UnaryOp} {e e' : Expr}
      (he : Respelled Γ e e') :
      Respelled Γ (.unary node op e) (.unary node op e')
  | binary {node : Node} {op : BinaryOp} {a a' b b' : Expr}
      (ha : Respelled Γ a a') (hb : Respelled Γ b b') :
      Respelled Γ (.binary node op a b) (.binary node op a' b')
  | logical {node : Node} {op : LogicalOp} {a a' b b' : Expr}
      (ha : Respelled Γ a a') (hb : Respelled Γ b b') :
      Respelled Γ (.logical node op a b) (.logical node op a' b')
  | call {node : Node} {argsId : Nat} {callee callee' : Expr}
      {args args' : List Expr} (hcallee : Respelled Γ callee callee')
      (hargs : AllRespelled Γ args args') :
      Respelled Γ (.call node argsId callee args)
        (.call node argsId callee' args')

/-- The same of expressions each for each. -/
inductive Expr.AllRespelled (Γ : NamePairs) :
    List Expr → List Expr → Prop
  | nil : AllRespelled Γ [] []
  | cons {e e' : Expr} {es es' : List Expr} (he : Respelled Γ e e')
      (hes : AllRespelled Γ es es') :
      AllRespelled Γ (e :: es) (e' :: es')

end

/-- The same of expressions that may be missing. -/
abbrev Expr.OptionRespelled (Γ : NamePairs) :
    Option Expr → Option Expr → Prop :=
  Option.Rel (Respelled r Γ)

mutual

/-- The statements differ in the spelling of local names alone, and
behind them these names are declared. -/
inductive Stmt.Respelled :
    NamePairs → Stmt → Stmt → NamePairs → Prop
  | expr {Γ : NamePairs} {node : Node} {e e' : Expr}
      (he : e.Respelled r Γ e') :
      Respelled Γ (.expr node e) (.expr node e') Γ
  | print {Γ : NamePairs} {node : Node} {e e' : Expr}
      (he : e.Respelled r Γ e') :
      Respelled Γ (.print node e) (.print node e') Γ
  | varDecl {Γ : NamePairs} {node : Node} {name name' : Name}
      {init init' : Option Expr} (hname : Γ.Declares name.text name'.text)
      (hinit : Expr.OptionRespelled r (Γ.add name.text name'.text) init
        init') :
      Respelled Γ (.varDecl node name init) (.varDecl node name' init')
        (Γ.add name.text name'.text)
  | funDecl {Γ inner : NamePairs} {node bodyNode : Node} {name : Name}
      {paramsId : Nat} {params params' : List Name}
      {body body' : List Stmt} (hname : Γ.Declares name.text name.text)
      (hparams : Params ([] :: Γ.add name.text name.text)
        (params.map Name.text) (params'.map Name.text) inner)
      (hbody : AllRespelled inner body body') :
      Respelled Γ (.funDecl node name paramsId params bodyNode body)
        (.funDecl node name paramsId params' bodyNode body')
        (Γ.add name.text name.text)
  | block {Γ : NamePairs} {node : Node} {body body' : List Stmt}
      (hbody : AllRespelled ([] :: Γ) body body') :
      Respelled Γ (.block node body) (.block node body') Γ
  | cond {Γ Γ₁ : NamePairs} {node : Node} {test test' : Expr}
      {yes yes' : Stmt} (htest : test.Respelled r Γ test')
      (hyes : Respelled Γ yes yes' Γ₁) :
      Respelled Γ (.cond node test yes none) (.cond node test' yes' none) Γ
  | condElse {Γ Γ₁ Γ₂ : NamePairs} {node : Node} {test test' : Expr}
      {yes yes' no no' : Stmt} (htest : test.Respelled r Γ test')
      (hyes : Respelled Γ yes yes' Γ₁) (hno : Respelled Γ no no' Γ₂) :
      Respelled Γ (.cond node test yes (some no))
        (.cond node test' yes' (some no')) Γ
  | loop {Γ Γ₁ : NamePairs} {node : Node} {test test' : Expr}
      {body body' : Stmt} (htest : test.Respelled r Γ test')
      (hbody : Respelled Γ body body' Γ₁) :
      Respelled Γ (.loop node test body) (.loop node test' body') Γ
  | ret {Γ : NamePairs} {node : Node} {value value' : Option Expr}
      (hvalue : Expr.OptionRespelled r Γ value value') :
      Respelled Γ (.ret node value) (.ret node value') Γ

/-- The same of statements one behind the other. -/
inductive Stmt.AllRespelled : NamePairs → List Stmt → List Stmt → Prop
  | nil {Γ : NamePairs} : AllRespelled Γ [] []
  | cons {Γ Γ₁ : NamePairs} {s s' : Stmt} {ss ss' : List Stmt}
      (hs : Respelled Γ s s' Γ₁) (hss : AllRespelled Γ₁ ss ss') :
      AllRespelled Γ (s :: ss) (s' :: ss')

end

end Respelled

variable {r : Respelling}

-- ================================================================= itself

/-- The names of one program taken for those of two. -/
def Scopes.doubled (scopes : Scopes) : NamePairs :=
  scopes.map (·.map fun name => (name, name))

namespace Scopes

variable (scopes : Scopes)

/-- To declare a name in one program is to declare it in both. -/
theorem doubled_add (name : String) :
    (scopes.add name).doubled = scopes.doubled.add name name := by
  cases scopes <;> rfl

/-- A name is new in its scope if it is new there. -/
theorem declares_doubled (name : String) :
    scopes.doubled.Declares name name := by
  cases scopes with
  | nil => rfl
  | cons scope outer =>
    show name ∈ (scope.map fun n => (n, n)).map Prod.fst
      ↔ name ∈ (scope.map fun n => (n, n)).map Prod.snd
    simp only [List.map_map, Function.comp_def]

/-- A name means what it means, and may stand for itself. -/
theorem use_doubled (name : String) : scopes.doubled.Use r name name := by
  refine ⟨?_, .inl rfl⟩
  have hsame : ∀ pairs : List (String × String),
      (∀ p ∈ pairs, p.2 = p.1) → SameMeaning pairs name name := by
    intro pairs
    induction pairs with
    | nil => exact fun _ => rfl
    | cons p pairs ih =>
      intro h
      obtain ⟨a, a'⟩ := p
      rw [List.forall_mem_cons] at h
      obtain rfl : a' = a := h.1
      by_cases ha : a' = name
      · exact .inl ⟨ha, ha⟩
      · exact .inr ⟨ha, ha, ih h.2⟩
  refine hsame _ fun p hp => ?_
  obtain ⟨scope, hscope, hp⟩ := List.mem_flatten.1 hp
  obtain ⟨names, -, rfl⟩ := List.mem_map.1 hscope
  obtain ⟨n, -, rfl⟩ := List.mem_map.1 hp
  rfl

/-- Parameters are declared one after another in both. -/
theorem params_doubled (scope : Scope) (names : List String) :
    Params (doubled (scope :: scopes)) names names
      (doubled ((names.reverse ++ scope) :: scopes)) := by
  induction names generalizing scope with
  | nil => exact .nil
  | cons name names ih =>
    have hrest := ih (name :: scope)
    rw [List.append_cons, ← List.reverse_cons] at hrest
    exact .cons (declares_doubled _ name) hrest

end Scopes

mutual

/-- An expression is respelled by itself, whatever is declared around it. -/
theorem Expr.respelled_self {scopes : Scopes} :
    (e : Expr) → e.Respelled r scopes.doubled e
  | .literal _ _ => .literal
  | .var _ name => .var (scopes.use_doubled name)
  | .assign _ name e => .assign e.respelled_self (scopes.use_doubled name)
  | .group _ e => .group e.respelled_self
  | .unary _ _ e => .unary e.respelled_self
  | .binary _ _ a b => .binary a.respelled_self b.respelled_self
  | .logical _ _ a b => .logical a.respelled_self b.respelled_self
  | .call _ _ callee args =>
      .call callee.respelled_self (allRespelled_self args)

/-- So are expressions each by each. -/
theorem Expr.allRespelled_self {scopes : Scopes} :
    (es : List Expr) → Expr.AllRespelled r scopes.doubled es es
  | [] => .nil
  | e :: es => .cons e.respelled_self (allRespelled_self es)

end

/-- So is an expression that may be missing. -/
theorem Expr.optionRespelled_self {scopes : Scopes} :
    (e : Option Expr) → Expr.OptionRespelled r scopes.doubled e e
  | none => .none
  | some e => .some e.respelled_self

mutual

/-- A statement is respelled by itself. -/
theorem Stmt.respelled_self : {scopes : Scopes} → (s : Stmt) →
    s.Respelled r scopes.doubled s (s.scopesAfter scopes).doubled
  | _, .expr _ e => .expr e.respelled_self
  | _, .print _ e => .print e.respelled_self
  | scopes, .varDecl _ name init => by
      have hinit : Expr.OptionRespelled r (scopes.add name.text).doubled init
        init := Expr.optionRespelled_self init
      rw [Scopes.doubled_add] at hinit
      rw [scopesAfter, Scopes.doubled_add]
      exact .varDecl (scopes.declares_doubled name.text) hinit
  | scopes, .funDecl _ name _ params _ body => by
      have hparams :=
        (scopes.add name.text).params_doubled [] (params.map Name.text)
      have hbody : Stmt.AllRespelled r (Scopes.doubled
          (((params.map Name.text).reverse ++ []) :: scopes.add name.text))
          body body := allRespelled_self body
      rw [scopesAfter, Scopes.doubled_add]
      refine .funDecl (scopes.declares_doubled name.text) ?_ hbody
      rw [← Scopes.doubled_add]
      exact hparams
  | scopes, .block _ body =>
      have hbody : Stmt.AllRespelled r (Scopes.doubled ([] :: scopes)) body
        body := allRespelled_self body
      .block hbody
  | _, .cond _ test yes none =>
      .cond test.respelled_self yes.respelled_self
  | _, .cond _ test yes (some no) =>
      .condElse test.respelled_self yes.respelled_self no.respelled_self
  | _, .loop _ test body => .loop test.respelled_self body.respelled_self
  | _, .ret _ value => .ret (Expr.optionRespelled_self value)

/-- So are statements one behind the other, and with them a program. -/
theorem Stmt.allRespelled_self : {scopes : Scopes} → (ss : List Stmt) →
    Stmt.AllRespelled r scopes.doubled ss ss
  | _, [] => .nil
  | _, s :: ss => .cons s.respelled_self (allRespelled_self ss)

end

-- ============================================================ same shapes

mutual

/-- The nodes are the same. -/
theorem Expr.Respelled.ids {Γ : NamePairs} : {e e' : Expr} →
    e.Respelled r Γ e' → e'.ids = e.ids
  | _, _, .literal | _, _, .var _ => rfl
  | _, _, .assign he _ | _, _, .group he | _, _, .unary he =>
      congrArg (_ :: ·) he.ids
  | _, _, .binary ha hb | _, _, .logical ha hb => by
      simp only [Expr.ids, ha.ids, hb.ids]
  | _, _, .call hcallee hargs => by
      simp only [Expr.ids, hcallee.ids, hargs.ids]

/-- A respelling keeps the nodes, so the identities are the same, in arguments
as well. -/
theorem Expr.AllRespelled.ids {Γ : NamePairs} : {es es' : List Expr} →
    Expr.AllRespelled r Γ es es' → Expr.idsAll es' = Expr.idsAll es
  | _, _, .nil => rfl
  | _, _, .cons he hes => by simp only [Expr.idsAll, he.ids, hes.ids]

end

/-- The same of an expression that may be missing. -/
theorem Expr.OptionRespelled.ids {Γ : NamePairs} {e e' : Option Expr}
    (h : Expr.OptionRespelled r Γ e e') : Expr.idsOf e' = Expr.idsOf e := by
  cases h with
  | none => rfl
  | some he => exact he.ids

mutual

/-- The nodes are the same. -/
theorem Stmt.Respelled.ids : {Γ Γ' : NamePairs} → {s s' : Stmt} →
    s.Respelled r Γ s' Γ' → s'.ids = s.ids
  | _, _, _, _, .expr he | _, _, _, _, .print he =>
      congrArg (_ :: ·) he.ids
  | _, _, _, _, .varDecl _ hinit =>
      congrArg (_ :: ·) (Expr.OptionRespelled.ids hinit)
  | _, _, _, _, .funDecl _ _ hbody => by simp only [Stmt.ids, hbody.ids]
  | _, _, _, _, .block hbody => congrArg (_ :: ·) hbody.ids
  | _, _, _, _, .cond htest hyes => by
      simp only [Stmt.ids, htest.ids, hyes.ids]
  | _, _, _, _, .condElse htest hyes hno => by
      simp only [Stmt.ids, htest.ids, hyes.ids, hno.ids]
  | _, _, _, _, .loop htest hbody => by
      simp only [Stmt.ids, htest.ids, hbody.ids]
  | _, _, _, _, .ret hvalue =>
      congrArg (_ :: ·) (Expr.OptionRespelled.ids hvalue)

/-- The same of statements, and so of a program. -/
theorem Stmt.AllRespelled.ids : {Γ : NamePairs} → {ss ss' : List Stmt} →
    Stmt.AllRespelled r Γ ss ss' → Stmt.idsAll ss' = Stmt.idsAll ss
  | _, _, _, .nil => rfl
  | _, _, _, .cons hs hss => by simp only [Stmt.idsAll, hs.ids, hss.ids]

end

/-- An error at an expression has the same node in both programs. -/
theorem Expr.Respelled.node {Γ : NamePairs} {e e' : Expr}
    (h : e.Respelled r Γ e') : e'.node = e.node := by
  cases h <;> rfl

/-- So has an error at a statement. -/
theorem Stmt.Respelled.node {Γ Γ' : NamePairs} {s s' : Stmt}
    (h : s.Respelled r Γ s' Γ') : s'.node = s.node := by
  cases h <;> rfl

/-- How tight an expression binds is a matter of its operator and of no
name. -/
theorem Expr.Respelled.tightness {Γ : NamePairs} {e e' : Expr}
    (h : e.Respelled r Γ e') : e'.tightness = e.tightness := by
  cases h <;> rfl

/-- A declaration is respelled by a declaration. -/
theorem Stmt.Respelled.declares {Γ Γ' : NamePairs} {s s' : Stmt}
    (h : s.Respelled r Γ s' Γ') : s'.declares = s.declares := by
  cases h <;> rfl

mutual

/-- What can be written without other parentheses still can with other
names. -/
theorem Expr.Respelled.wellFormed {Γ : NamePairs} : {e e' : Expr} →
    e.Respelled r Γ e' → e.WellFormed → e'.WellFormed
  | _, _, .literal, h | _, _, .var _, h => h
  | _, _, .assign he _, h | _, _, .group he, h => he.wellFormed h
  | _, _, .unary he, h => ⟨he.tightness ▸ h.1, he.wellFormed h.2⟩
  | _, _, .binary ha hb, h | _, _, .logical ha hb, h =>
      ⟨⟨ha.tightness ▸ h.1.1, ha.wellFormed h.1.2⟩,
        hb.tightness ▸ h.2.1, hb.wellFormed h.2.2⟩
  | _, _, .call hcallee hargs, h =>
      ⟨⟨hcallee.tightness ▸ h.1.1, hcallee.wellFormed h.1.2⟩,
        hargs.wellFormed h.2⟩

/-- The same of arguments. -/
theorem Expr.AllRespelled.wellFormed {Γ : NamePairs} :
    {es es' : List Expr} → Expr.AllRespelled r Γ es es' →
      Expr.AllWellFormed es → Expr.AllWellFormed es'
  | _, _, .nil, h => h
  | _, _, .cons he hes, h => ⟨he.wellFormed h.1, hes.wellFormed h.2⟩

end

/-- The same of an expression that may be missing. -/
theorem Expr.OptionRespelled.wellFormed {Γ : NamePairs}
    {e e' : Option Expr} (h : Expr.OptionRespelled r Γ e e')
    (hformed : Expr.OptionWellFormed e) : Expr.OptionWellFormed e' := by
  cases h with
  | none => exact hformed
  | some he =>
    intro e₁ he₁
    obtain rfl := Option.mem_some.1 he₁
    exact he.wellFormed (hformed _ rfl)

mutual

/-- What is well formed is so in another spelling. -/
theorem Stmt.Respelled.wellFormed : {Γ Γ' : NamePairs} →
    {s s' : Stmt} → s.Respelled r Γ s' Γ' → s.WellFormed → s'.WellFormed
  | _, _, _, _, .expr he, h | _, _, _, _, .print he, h => he.wellFormed h
  | _, _, _, _, .varDecl _ hinit, h =>
      Expr.OptionRespelled.wellFormed hinit h
  | _, _, _, _, .funDecl _ _ hbody, h | _, _, _, _, .block hbody, h =>
      hbody.wellFormed h
  | _, _, _, _, .cond htest hyes, h =>
      ⟨htest.wellFormed h.1, hyes.declares ▸ h.2.1, hyes.wellFormed h.2.2⟩
  | _, _, _, _, .condElse htest hyes hno, h =>
      ⟨htest.wellFormed h.1,
        ⟨hyes.declares ▸ h.2.1.1, hyes.wellFormed h.2.1.2⟩,
        hno.declares ▸ h.2.2.1, hno.wellFormed h.2.2.2⟩
  | _, _, _, _, .loop htest hbody, h =>
      ⟨htest.wellFormed h.1, hbody.declares ▸ h.2.1,
        hbody.wellFormed h.2.2⟩
  | _, _, _, _, .ret hvalue, h =>
      Expr.OptionRespelled.wellFormed hvalue h

/-- The same of statements, and so of a program. -/
theorem Stmt.AllRespelled.wellFormed : {Γ : NamePairs} →
    {ss ss' : List Stmt} → Stmt.AllRespelled r Γ ss ss' →
      Stmt.AllWellFormed ss → Stmt.AllWellFormed ss'
  | _, _, _, .nil, h => h
  | _, _, _, .cons hs hss, h => ⟨hs.wellFormed h.1, hss.wellFormed h.2⟩

end

end Lox
