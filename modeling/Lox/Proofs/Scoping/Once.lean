/-
Names that are declared once. If a local name has a single declaration,
the scopes that bind it are the runs of one block or body, and no chain
goes through two of them: what a block or a body runs in was there
before, and nothing that was there before declares the name. So to walk
outwards until the name is bound leads to the same scope as the table
does, which counts the scopes without looking at them.

# Marks

A scope is marked for a name when it is made for a block or a body that
declares the name. It may bind the name later or never, so the marks are
known before the bindings are, and a variable that is used in its own
initializer is looked for in a marked scope that does not bind it yet.
The globals are marked for the names that are not local. What is kept
(`bindsOnce`): a scope that binds the name is marked, and the marked
scopes of a chain and the declarations still to be run in it are one at
most.
-/
import Lox.Proofs.Run.Discipline
import Lox.Proofs.Scoping.Found

namespace Lox

-- ========================================================= declared names

/-- The names that a statement declares in the scope that it is in. -/
def Stmt.declaredHere : Stmt → List String
  | .varDecl _ name _ | .funDecl _ name _ _ _ _ => [name.text]
  | .cond _ _ yes none => yes.declaredHere
  | .cond _ _ yes (some no) => yes.declaredHere ++ no.declaredHere
  | .loop _ _ body => body.declaredHere
  | .expr _ _ | .print _ _ | .block _ _ | .ret _ _ => []

/-- The names that some statements declare in the scope that they are
in. -/
def Stmt.allDeclaredHere (ss : List Stmt) : List String :=
  ss.flatMap declaredHere

mutual

/-- The names that are declared in the scopes inside a statement; the
parameters of a function are in the scope of its body. -/
def Stmt.declaredInside : Stmt → List String
  | .funDecl _ _ _ params _ body =>
      params.map Name.text ++ allDeclaredHere body ++ allDeclaredInside body
  | .block _ body => allDeclaredHere body ++ allDeclaredInside body
  | .cond _ _ yes none => yes.declaredInside
  | .cond _ _ yes (some no) => yes.declaredInside ++ no.declaredInside
  | .loop _ _ body => body.declaredInside
  | .expr _ _ | .print _ _ | .varDecl _ _ _ | .ret _ _ => []

/-- The names that are declared in the scopes inside some statements. -/
def Stmt.allDeclaredInside : List Stmt → List String
  | [] => []
  | s :: ss => s.declaredInside ++ allDeclaredInside ss

end

theorem Stmt.count_declaredInside_branch {s s' : Stmt}
    (h : s' ∈ s.branches) (name : String) :
    s'.declaredInside.count name ≤ s.declaredInside.count name := by
  cases s with
  | cond node test yes no =>
    cases no with
    | none =>
      obtain rfl := List.mem_singleton.1 h
      exact Nat.le_refl _
    | some other =>
      rw [declaredInside, List.count_append]
      rcases List.mem_cons.1 h with rfl | h
      · exact Nat.le_add_right _ _
      · obtain rfl := List.mem_singleton.1 h
        exact Nat.le_add_left _ _
  | loop =>
    obtain rfl := List.mem_singleton.1 h
    exact Nat.le_refl _
  | _ => cases h

theorem Stmt.mem_declaredHere_branch {s s' : Stmt} (h : s' ∈ s.branches)
    {name : String} (hname : name ∈ s'.declaredHere) :
    name ∈ s.declaredHere := by
  cases s with
  | cond node test yes no =>
    cases no with
    | none =>
      obtain rfl := List.mem_singleton.1 h
      exact hname
    | some other =>
      rw [declaredHere, List.mem_append]
      rcases List.mem_cons.1 h with rfl | h
      · exact .inl hname
      · obtain rfl := List.mem_singleton.1 h
        exact .inr hname
  | loop =>
    obtain rfl := List.mem_singleton.1 h
    exact hname
  | _ => cases h

-- ================================================================== marks

/-- How many scopes there are, and which of them are marked. -/
structure Marks where
  size : Nat
  marked : Nat → Bool

namespace Marks

/-- How many scopes of an environment are marked. -/
def count (k : Marks) (env : Env) : Nat := env.chain.countP k.marked

/-- The scopes of an environment are there, the globals among them. -/
def Has (k : Marks) (env : Env) : Prop :=
  (∀ i ∈ env.chain, i < k.size) ∧ 0 ∈ env.chain

/-- The marks when there is one more scope. -/
def grow (k : Marks) (mark : Bool) : Marks :=
  ⟨k.size + 1, fun i => if i = k.size then mark else k.marked i⟩

/-- There are as many scopes and more, and those from before are marked
as they were. -/
def Later (k k' : Marks) : Prop :=
  k.size ≤ k'.size ∧ ∀ i < k.size, k'.marked i = k.marked i

variable {k k' : Marks} {env : Env}

theorem later_refl (k : Marks) : k.Later k :=
  ⟨Nat.le_refl _, fun _ _ => rfl⟩

theorem later_grow (k : Marks) (mark : Bool) : k.Later (k.grow mark) :=
  ⟨Nat.le_succ _, fun _ hi => if_neg (Nat.ne_of_lt hi)⟩

theorem Has.later (h : k.Has env) (hlater : k.Later k') : k'.Has env :=
  ⟨fun i hi => Nat.lt_of_lt_of_le (h.1 i hi) hlater.1, h.2⟩

theorem count_later (h : k.Has env) (hlater : k.Later k') :
    k'.count env = k.count env :=
  List.countP_congr fun _ hi => by rw [hlater.2 _ (h.1 _ hi)]

/-- The environment of the scope just made. -/
theorem Has.grow (h : k.Has env) (mark : Bool) :
    (k.grow mark).Has ⟨k.size, env.chain⟩ :=
  ⟨List.forall_mem_cons.2 ⟨Nat.lt_succ_self _, fun i hi =>
      Nat.lt_succ_of_lt (h.1 i hi)⟩, List.mem_cons_of_mem _ h.2⟩

theorem count_grow (h : k.Has env) (mark : Bool) :
    (k.grow mark).count ⟨k.size, env.chain⟩
      = k.count env + if mark then 1 else 0 := by
  have hbefore := count_later h (later_grow k mark)
  unfold count at *
  rw [Env.chain, List.countP_cons, hbefore]
  simp [Marks.grow]

/-- The environment is there, and of its marks and these declarations of
the name there is one at most. -/
def Admits (k : Marks) (name : String) (env : Env) (names : List String) :
    Prop :=
  k.Has env ∧ k.count env + names.count name ≤ 1

theorem Admits.later {name : String} {names : List String}
    (h : k.Admits name env names) (hlater : k.Later k') :
    k'.Admits name env names :=
  ⟨h.1.later hlater, count_later h.1 hlater ▸ h.2⟩

theorem Admits.mono {name : String} {names names' : List String}
    (h : k.Admits name env names)
    (hle : names'.count name ≤ names.count name) :
    k.Admits name env names' :=
  ⟨h.1, Nat.le_trans (Nat.add_le_add_left hle _) h.2⟩

/-- The declarations of a new scope turn into its mark. -/
theorem Admits.enter {name : String} {here inside : List String}
    (h : k.Admits name env (here ++ inside)) :
    (k.grow (decide (name ∈ here))).Admits name ⟨k.size, env.chain⟩
      inside := by
  obtain ⟨hhas, hcount⟩ := h
  refine ⟨hhas.grow _, ?_⟩
  rw [List.count_append] at hcount
  rw [count_grow hhas]
  by_cases hname : name ∈ here
  · have hpos := List.count_pos_iff.2 hname
    simp only [hname, decide_true, if_true]
    omega
  · simp only [hname, decide_false]
    simp only [Bool.false_eq_true, if_false]
    omega

/-- Two marked scopes of a chain with one mark are the same. -/
theorem Admits.eq_of_marked {name : String} {names : List String}
    (h : k.Admits name env names) {i j : Nat} (hi : i ∈ env.chain)
    (hj : j ∈ env.chain) (hmi : k.marked i = true)
    (hmj : k.marked j = true) : i = j := by
  have hcount := Nat.le_trans (Nat.le_add_right _ _) h.2
  unfold count at hcount
  rw [List.countP_eq_length_filter] at hcount
  have hi' := List.mem_filter.2 ⟨hi, hmi⟩
  have hj' := List.mem_filter.2 ⟨hj, hmj⟩
  match hmarked : env.chain.filter k.marked with
  | [] =>
    rw [hmarked] at hi'
    cases hi'
  | [l] =>
    rw [hmarked, List.mem_singleton] at hi' hj'
    exact hi'.trans hj'.symm
  | _ :: _ :: _ =>
    rw [hmarked] at hcount
    simp at hcount

end Marks

-- ============================================================ discipline

/-- The names that are declared when a function is called. -/
def Function.declares (f : Function) : List String :=
  f.params ++ Stmt.allDeclaredHere f.body ++ Stmt.allDeclaredInside f.body

/-- What is kept of a name that is declared once. -/
def bindsOnce (x : String) : Discipline Marks where
  Later := Marks.Later
  OfStore k s := s.size = k.size ∧
    (∀ i, (s.lookup i x).isSome = true → k.marked i = true) ∧
    s.All fun v => ∀ f, v = .function f → k.Admits x f.closure f.declares
  OfValue k v := ∀ f, v = .function f → k.Admits x f.closure f.declares
  OfExpr k env pending _ := k.Admits x env [] ∧
    (pending = some x → k.marked env.scope = true)
  OfStmt k env s := k.Admits x env s.declaredInside ∧
    (x ∈ s.declaredHere → k.marked env.scope = true)
  OfStmts k env ss := k.Admits x env (Stmt.allDeclaredInside ss) ∧
    (x ∈ Stmt.allDeclaredHere ss → k.marked env.scope = true)

namespace bindsOnce

variable {x : String} {k k' : Marks} {s : Store} {env : Env}

/-- What is kept of the stored values when a scope is made. -/
theorem stored_later (hlater : k.Later k')
    (h : s.All fun v => ∀ f, v = .function f →
      k.Admits x f.closure f.declares) :
    s.All fun v => ∀ f, v = .function f →
      k'.Admits x f.closure f.declares :=
  fun scope name v hv f hf => (h scope name v hv f hf).later hlater

/-- A binding is kept if the name is another or the scope is marked. -/
theorem ofStore_bind (h : (bindsOnce x).OfStore k s) {scope : Nat}
    {name : String} {v : Value} (hv : (bindsOnce x).OfValue k v)
    (hmark : x = name → k.marked scope = true) :
    (bindsOnce x).OfStore k (s.bind scope name v) := by
  obtain ⟨hsize, hmarked, hstored⟩ := h
  refine ⟨(Store.size_bind ..).trans hsize, fun i hi => ?_, hstored.bind hv⟩
  rcases Store.isSome_lookup_bind hi with hi | ⟨rfl, hname⟩
  · exact hmarked i hi
  · exact hmark hname

/-- A new scope is marked if it is for declarations of the name. -/
theorem ofStore_grow (h : (bindsOnce x).OfStore k s) (mark : Bool) :
    (bindsOnce x).OfStore (k.grow mark) s.grow := by
  obtain ⟨hsize, hmarked, hstored⟩ := h
  refine ⟨by rw [Store.size_grow, hsize]; rfl, fun i hi => ?_,
    stored_later (k.later_grow mark) hstored.grow⟩
  rw [Store.lookup_grow] at hi
  have hlt : i < k.size := hsize ▸ Store.lt_size_of_lookup hi
  rw [(k.later_grow mark).2 i hlt]
  exact hmarked i hi

theorem ofStore_defineAll (h : (bindsOnce x).OfStore k s)
    {named : List (String × Value)}
    (hnamed : ∀ p ∈ named, (bindsOnce x).OfValue k p.2)
    (hmark : x ∈ named.map Prod.fst → k.marked env.scope = true) :
    (bindsOnce x).OfStore k (s.defineAll env named) :=
  Store.defineAll_of_define h fun _ p hp h =>
    ofStore_bind h (hnamed p hp) fun hname =>
      hmark (hname ▸ List.mem_map_of_mem hp)

end bindsOnce

/-- What is said of a name that is declared once is kept. -/
theorem bindsOnce_lawful (x : String) : (bindsOnce x).Lawful where
  refl k := k.later_refl
  trans h h' := ⟨Nat.le_trans h.1 h'.1, fun i hi =>
    (h'.2 i (Nat.lt_of_lt_of_le hi h.1)).trans (h.2 i hi)⟩
  value_later hlater h f hf := (h f hf).later hlater
  expr_later hlater h := ⟨h.1.later hlater, fun hname =>
    (hlater.2 _ (h.1.1.1 _ List.mem_cons_self)).trans (h.2 hname)⟩
  stmt_later hlater h := ⟨h.1.later hlater, fun hname =>
    (hlater.2 _ (h.1.1.1 _ List.mem_cons_self)).trans (h.2 hname)⟩
  stmts_later hlater h := ⟨h.1.later hlater, fun hname =>
    (hlater.2 _ (h.1.1.1 _ List.mem_cons_self)).trans (h.2 hname)⟩
  plain h f hf := absurd hf (h f)
  found h _ _ hv := h.2.2 _ _ _ hv
  assigned {k s env pending e scope name old v} h _ _ hold hv :=
    ⟨k, k.later_refl, bindsOnce.ofStore_bind h hv fun hname =>
      h.2.1 _ (by rw [hname, hold]; rfl)⟩
  part h _ _ := h
  exprs {k env s} h e he := by
    refine ⟨h.1.mono (Nat.zero_le _), fun hpending => h.2 ?_⟩
    -- Only a declaration has an initializer with a name pending, and it
    -- declares that name.
    cases s with
    | varDecl node name init =>
      simp only [Stmt.pendingIn] at hpending
      split at hpending
      · cases hpending
      · cases hpending
        exact List.mem_singleton.2 rfl
    | _ => cases hpending
  branch h s' hs' := ⟨h.1.mono (Stmt.count_declaredInside_branch hs' x),
    fun hname => h.2 (Stmt.mem_declaredHere_branch hs' hname)⟩
  head h := ⟨h.1.mono (by
      rw [Stmt.allDeclaredInside, List.count_append]
      exact Nat.le_add_right _ _), fun hname => h.2 (by
      rw [Stmt.allDeclaredHere, List.flatMap_cons, List.mem_append]
      exact .inl hname)⟩
  tail h := ⟨h.1.mono (by
      rw [Stmt.allDeclaredInside, List.count_append]
      exact Nat.le_add_left _ _), fun hname => h.2 (by
      rw [Stmt.allDeclaredHere, List.flatMap_cons, List.mem_append]
      exact .inr hname)⟩
  defined {k s env node name init v} h hs hv :=
    ⟨k, k.later_refl, bindsOnce.ofStore_bind h hv fun hname =>
      hs.2 (List.mem_singleton.2 hname)⟩
  declared {k s env node name paramsId params bodyNode body stamp} h hs := by
    refine ⟨k, k.later_refl, bindsOnce.ofStore_bind h (fun f hf => ?_)
      fun hname => hs.2 (List.mem_singleton.2 hname)⟩
    cases hf
    exact hs.1
  block {k s env node body} h hs := by
    have hsize : s.size = k.size := h.1
    refine ⟨k.grow (decide (x ∈ Stmt.allDeclaredHere body)),
      k.later_grow _, bindsOnce.ofStore_grow h _, ?_, fun hname => ?_⟩
    · rw [Store.newChild, hsize]
      exact hs.1.enter
    · rw [Store.newChild, hsize]
      simp [Marks.grow, hname]
  body {k s f args} h hf harity hargs := by
    have hsize : s.size = k.size := h.1
    -- The parameters and what the body declares are in one scope.
    let here := f.params ++ Stmt.allDeclaredHere f.body
    let k' := k.grow (decide (x ∈ here))
    have hlater : k.Later k' := k.later_grow _
    have hmark : x ∈ here →
        k'.marked (s.newChild f.closure).1.scope = true := by
      intro hname
      simp [k', Marks.grow, Store.newChild, hsize, hname]
    refine ⟨k', hlater, bindsOnce.ofStore_defineAll
      (bindsOnce.ofStore_grow h _) (fun p hp g hg => ?_) fun hname => ?_, ?_,
      fun hname => hmark (List.mem_append_right _ hname)⟩
    · exact (hargs p.2 (List.of_mem_zip hp).2 g hg).later hlater
    · refine hmark (List.mem_append_left _ ?_)
      obtain ⟨p, hp, rfl⟩ := List.mem_map.1 hname
      exact (List.of_mem_zip hp).1
    · rw [Store.newChild, hsize]
      exact Marks.Admits.enter (hf f rfl)

-- ============================================================ at a moment

/-- The node and the name of a use. -/
def Expr.use? : Expr → Option (Node × String)
  | .var node name | .assign node name _ => some (node, name)
  | _ => none

/-- If the expression is a use without an entry in the table, it is of
none of these names. -/
def Expr.Listed (depths : Depths) (locals : List String) (e : Expr) : Prop :=
  ∀ node name, e.use? = some (node, name) → depths[node.id]? = none →
    name ∉ locals

/-- What is kept when the local names are declared once: the globals are
marked for all other names. -/
def DeclaredOnce (locals : List String) (t : Moment) : Prop :=
  ∀ name, ∃ k, (bindsOnce name).Holds k t ∧
    k.marked 0 = decide (name ∉ locals)

section Agreement

variable {depths : Depths} {limit : Nat} {locals : List String} {t : Moment}
  {node : Node} {name : String}

/-- A use that looks into a marked scope of the chain finds what a walk
finds. -/
theorem walk_eq_of_marked {k : Marks} {scope : Nat} {pending : Option String}
    {e : Expr} (hstore : (bindsOnce name).OfStore k t.machine.store)
    (hexpr : (bindsOnce name).OfExpr k t.machine.env pending e)
    (hmem : scope ∈ t.machine.env.chain) (hmark : k.marked scope = true)
    (hfind : (Access.byDepth depths).find t.machine.store t.machine.env
        node.id name = t.machine.store.findIn scope name) :
    (Access.byDepth depths).find t.machine.store t.machine.env node.id name
      = Access.byWalk.find t.machine.store t.machine.env node.id name := by
  rw [hfind]
  refine (Store.reach_of_only hmem fun i hi hbound => ?_).symm
  exact hexpr.1.eq_of_marked hi hmem (hstore.2.1 i hbound) hmark

/-- A use that binds the name where the table leads looks into a marked
scope. -/
theorem walk_eq_of_binds {k : Marks} {depth : Nat} {pending : Option String}
    {e : Expr} (hstore : (bindsOnce name).OfStore k t.machine.store)
    (hexpr : (bindsOnce name).OfExpr k t.machine.env pending e)
    (hentry : depths[node.id]? = some depth)
    (hbinds : t.machine.Binds depth name) :
    (Access.byDepth depths).find t.machine.store t.machine.env node.id name
      = Access.byWalk.find t.machine.store t.machine.env node.id name := by
  obtain ⟨-, target, v, hancestor, hv⟩ := hbinds
  have hchain := Env.chain_of_ancestor hancestor
  exact walk_eq_of_marked hstore hexpr (List.mem_of_getElem? hchain)
    (hstore.2.1 _ (by rw [hv]; rfl))
    (Access.find_byDepth_of_chain hentry hchain)

/-- When the local names are declared once, and no use of one is left out
of the table, to walk finds what the table leads to. -/
theorem Scoping.Sound.walk_agrees
    (hsound : Sound (tableOf depths) limit t)
    (honce : DeclaredOnce locals t)
    (hlisted :
      (Discipline.throughout (Expr.Listed depths locals)).Holds () t) :
    t.Agrees (.byDepth depths) .byWalk := by
  intro node name htask
  obtain ⟨k, ⟨hstore, hkept⟩, hglobals⟩ := honce name
  obtain ⟨e, huse, hexpr, hthroughout⟩ : ∃ e : Expr,
      e.use? = some (node, name) ∧
      (bindsOnce name).OfExpr k t.machine.env t.initializing e ∧
      e.Throughout (Expr.Listed depths locals) := by
    rcases htask with htask | ⟨v, htask⟩
    · rw [htask] at hkept
      have hcode := hlisted.2
      rw [htask] at hcode
      exact ⟨_, rfl, hkept, hcode⟩
    · rw [htask] at hkept
      have hcode := hlisted.2
      rw [htask] at hcode
      obtain ⟨-, value, hassign⟩ := hcode
      obtain ⟨-, _, hexpr⟩ := hkept
      exact ⟨.assign node name value, rfl, hexpr, hassign⟩
  cases hentry : depths[node.id]? with
  | none =>
    -- A use without an entry looks among the globals, which are marked for its
    -- name.
    have hname := hthroughout.self node name huse hentry
    refine walk_eq_of_marked hstore hexpr hexpr.1.1.2 ?_
      (Access.find_byDepth_of_none hentry)
    rw [hglobals, decide_eq_true hname]
  | some depth =>
    rcases htask with htask | ⟨v, htask⟩
    · obtain ⟨hbinds, -⟩ := hsound.reads htask hentry
      exact walk_eq_of_binds hstore hexpr hentry hbinds
    · obtain ⟨hother, hown⟩ := hsound.writes htask hentry
      by_cases hname : t.initializing = some name
      -- The scope does not bind the name yet, but it is marked for it.
      · obtain ⟨rfl, -, -⟩ := hown hname
        exact walk_eq_of_marked hstore hexpr List.mem_cons_self
          (hexpr.2 hname) (Access.find_byDepth_of_chain hentry rfl)
      · exact walk_eq_of_binds hstore hexpr hentry (hother hname).1

end Agreement

end Lox
