/-
Walking and jumping. An environment is its chain of scopes, so the one so
many scopes outwards is what the chain is from there on: there is one as
long as the chain goes on, and to go outwards twice is to go outwards once
by the sum.

A name is reached by walking outwards to the first scope that binds it, or
by jumping over as many scopes as are known to stand in between. Whatever
has been done with environments, both come to the same place and do the
same there, if the jump is to the first scope that binds the name; and if
none does, both fail (`walking_eq_jumping`).

# What is touched

Chains share their outer scopes, so an assignment through one environment
is seen through many. What it changes is said of the environments that were
made: each has an own scope, which no other has for its own, and the
environments around it were made before it (`Built.formed`). So the one
whose scope is the target of an assignment is the only one whose bindings
change.
-/
import Mathlib.Data.Nat.Find
import Lox.Proofs.Run.Names

namespace Lox

-- ============================================================== ancestors

namespace Env

variable {e target : Env} {depth : Nat}

/-- An environment is its chain. -/
theorem eq_of_chain {e' : Env} (h : e.chain = e'.chain) : e = e' := by
  obtain ⟨scope, enclosing⟩ := e
  obtain ⟨scope', enclosing'⟩ := e'
  injection h with hscope henclosing
  subst hscope
  subst henclosing
  rfl

theorem ancestor_eq_ok :
    e.ancestor depth = .ok target ↔ e.chain.drop depth = target.chain := by
  unfold ancestor
  split
  · next scope enclosing hdrop =>
    rw [hdrop]
    constructor
    · intro h
      cases h
      rfl
    · intro h
      exact congrArg Except.ok (eq_of_chain h)
  · next hdrop =>
    rw [hdrop]
    constructor
    · nofun
    · nofun

/-- Outwards there is an environment as long as the chain goes on. -/
theorem exists_ancestor (h : depth ≤ e.depth) :
    ∃ target, e.ancestor depth = .ok target := by
  have hlt : depth < e.chain.length := Nat.lt_succ_of_le h
  obtain ⟨enclosing, hancestor⟩ :=
    ancestor_of_chain (List.getElem?_eq_getElem hlt)
  exact ⟨_, hancestor⟩

/-- Beyond the chain there is none. -/
theorem ancestor_of_depth_lt (h : e.depth < depth) :
    e.ancestor depth = .error (.depthBeyondChain depth) := by
  have hdrop : e.chain.drop depth = [] :=
    List.drop_eq_nil_of_le (Nat.succ_le_of_lt h)
  unfold ancestor
  rw [hdrop]

/-- To go outwards twice is to go outwards once by the sum. -/
theorem ancestor_add {a b : Nat} (h : e.ancestor a = .ok target) (t : Env) :
    e.ancestor (a + b) = .ok t ↔ target.ancestor b = .ok t := by
  rw [ancestor_eq_ok, ancestor_eq_ok, ← ancestor_eq_ok.1 h, List.drop_drop]

theorem exists_ancestor_iff :
    (∃ target, e.ancestor depth = .ok target) ↔ depth ≤ e.depth := by
  constructor
  · rintro ⟨target, h⟩
    exact le_depth_of_ancestor h
  · exact exists_ancestor

/-- And the one fails if and only if the other does. -/
theorem toOption_ancestor_add (e : Env) (a b : Nat) :
    (e.ancestor a >>= fun outer => outer.ancestor b).toOption
      = (e.ancestor (a + b)).toOption := by
  cases ha : e.ancestor a with
  | error fault =>
    have hlt : e.depth < a := by
      refine Nat.lt_of_not_le fun hle => ?_
      obtain ⟨target, h⟩ := exists_ancestor hle
      cases ha.symm.trans h
    rw [ancestor_of_depth_lt (Nat.lt_add_right b hlt)]
    rfl
  | ok target =>
    show (target.ancestor b).toOption = _
    cases hb : target.ancestor b with
    | ok t => rw [(ancestor_add ha t).2 hb]
    | error fault =>
      cases hab : e.ancestor (a + b) with
      | error fault' => rfl
      | ok t => cases hb.symm.trans ((ancestor_add ha t).1 hab)

theorem chain_eq_of_ancestor (h : e.ancestor depth = .ok target) :
    e.chain = e.chain.take depth ++ target.chain := by
  rw [← ancestor_eq_ok.1 h, List.take_append_drop]

/-- What holds of the scopes so far outwards holds of those in the chain up
to there. -/
theorem forall_mem_take {Q : Nat → Prop}
    (h : ∀ nearer < depth, ∀ env, e.ancestor nearer = .ok env → Q env.scope) :
    ∀ i ∈ e.chain.take depth, Q i := by
  intro i hi
  obtain ⟨nearer, hnearer⟩ := List.getElem?_of_mem hi
  rw [List.getElem?_take] at hnearer
  split at hnearer
  · next hlt =>
    obtain ⟨enclosing, hancestor⟩ := ancestor_of_chain hnearer
    exact h nearer hlt _ hancestor
  · cases hnearer

end Env

-- ================================================================= walking

namespace Store

/-- The environment at this depth is the first of the chain whose scope
binds the name. -/
structure FirstBinds (s : Store) (e : Env) (name : String) (depth : Nat)
    (target : Env) (old : Value) : Prop where
  reached : e.ancestor depth = .ok target
  bound : s.lookup target.scope name = some old
  least : ∀ nearer < depth, ∀ env, e.ancestor nearer = .ok env →
    s.lookup env.scope name = none

/-- No scope of the chain binds the name. -/
def BindsNowhere (s : Store) (e : Env) (name : String) : Prop :=
  ∀ depth env, e.ancestor depth = .ok env → s.lookup env.scope name = none

section Walking

variable {s : Store} {e target : Env} {name : String} {depth : Nat}
  {old : Value}

/-- A name is bound first at some depth, or nowhere. -/
theorem firstBinds_or_bindsNowhere (s : Store) (e : Env) (name : String) :
    (∃ depth target old, s.FirstBinds e name depth target old) ∨
      s.BindsNowhere e name := by
  classical
  let binds (depth : Nat) : Prop := ∃ env old,
    e.ancestor depth = .ok env ∧ s.lookup env.scope name = some old
  by_cases h : ∃ depth, binds depth
  · obtain ⟨target, old, hreached, hbound⟩ := Nat.find_spec h
    refine .inl ⟨Nat.find h, target, old, hreached, hbound, ?_⟩
    intro nearer hlt env henv
    refine Option.eq_none_iff_forall_ne_some.2 fun v hv => ?_
    exact Nat.find_min h hlt ⟨env, v, henv, hv⟩
  · refine .inr fun depth env henv => ?_
    refine Option.eq_none_iff_forall_ne_some.2 fun v hv => ?_
    exact h ⟨depth, env, v, henv, hv⟩

/-- Walking outwards passes the scopes that do not bind the name. -/
private theorem findSome?_of_none {scopes : List Nat}
    (h : ∀ i ∈ scopes, s.lookup i name = none) :
    scopes.findSome? (fun i => (s.lookup i name).map (i, ·)) = none := by
  refine List.findSome?_eq_none_iff.2 fun i hi => ?_
  rw [h i hi]
  rfl

/-- Walking comes to the first scope that binds the name. -/
theorem FirstBinds.reach (h : s.FirstBinds e name depth target old) :
    s.reach e name = .ok (target.scope, old) := by
  have hpassed := findSome?_of_none (Env.forall_mem_take h.least)
  unfold Store.reach
  rw [Env.chain_eq_of_ancestor h.reached, List.findSome?_append, hpassed,
    Env.chain, List.findSome?_cons, h.bound]
  rfl

/-- Jumping comes to the scope so far out. -/
theorem FirstBinds.reachAt (h : s.FirstBinds e name depth target old) :
    s.reachAt e depth name = .ok (target.scope, old) := by
  rw [reachAt_of_chain (Env.chain_of_ancestor h.reached)]
  exact findIn_of_some h.bound

/-- Walking comes to no scope if none binds the name. -/
theorem BindsNowhere.reach (h : s.BindsNowhere e name) :
    s.reach e name = .error (.undefined name) := by
  have hall : ∀ i ∈ e.chain.take e.chain.length, s.lookup i name = none :=
    Env.forall_mem_take fun nearer _ env henv => h nearer env henv
  rw [List.take_length] at hall
  unfold Store.reach
  rw [findSome?_of_none hall]

/-- Jumping fails where the chain does not bind the name, and beyond it. -/
theorem BindsNowhere.reachAt (h : s.BindsNowhere e name) (depth : Nat) :
    s.reachAt e depth name
      = .error (if depth ≤ e.depth then .undefined name
          else .depthBeyondChain depth) := by
  by_cases hle : depth ≤ e.depth
  · obtain ⟨target, htarget⟩ := Env.exists_ancestor hle
    rw [if_pos hle, reachAt_of_chain (Env.chain_of_ancestor htarget)]
    exact findIn_of_none (h depth target htarget)
  · rw [if_neg hle]
    unfold Store.reachAt
    rw [Env.ancestor_of_depth_lt (Nat.lt_of_not_le hle)]
    rfl

end Walking

-- ============================================================== operations

/-- What can be done with environments. -/
inductive Operation where
  | new
  | child (e : Env)
  | define (e : Env) (name : String) (v : Value)
  | ancestor (e : Env) (depth : Nat)
  | get (e : Env) (name : String)
  | getAt (e : Env) (depth : Nat) (name : String)
  | assign (e : Env) (name : String) (v : Value)
  | assignAt (e : Env) (depth : Nat) (name : String) (v : Value)

/-- What an operation gives back. -/
inductive Answer where
  | nothing
  | env (e : Env)
  | value (v : Value)

/-- The environment that an operation is done with. -/
def Operation.env? : Operation → Option Env
  | new => none
  | child e | define e _ _ | ancestor e _ | get e _ | getAt e _ _
  | assign e _ _ | assignAt e _ _ _ => some e

/-- The outcome of an assignment, and the store behind it: if it fails, the
store is the one before. -/
def settle (s : Store) :
    Except RuntimeFault (Value × Store) → Except RuntimeFault Answer × Store
  | .ok (old, s') => (.ok (.value old), s')
  | .error fault => (.error fault, s)

/-- The outcome of an operation, and the store behind it. -/
def perform (s : Store) : Operation → Except RuntimeFault Answer × Store
  | .new => (.ok (.env s.newRoot.1), s.newRoot.2)
  | .child e => (.ok (.env (s.newChild e).1), (s.newChild e).2)
  | .define e name v => (.ok .nothing, s.define e name v)
  | .ancestor e depth => ((e.ancestor depth).map .env, s)
  | .get e name => ((s.get e name).map .value, s)
  | .getAt e depth name => ((s.getAt e depth name).map .value, s)
  | .assign e name v => s.settle (s.assign e name v)
  | .assignAt e depth name v => s.settle (s.assignAt e depth name v)

/-- The environments that an operation makes. -/
def Operation.makes (s : Store) : Operation → List Env
  | new => [s.newRoot.1]
  | child e => [(s.newChild e).1]
  | _ => []

/-- The environments made by some operations, in their order, and the store
behind the operations. They begin with nothing, and each is done with an
environment that was made before. -/
inductive Built : List Env → Store → Prop where
  | empty : Built [] ⟨#[]⟩
  | step {made : List Env} {s : Store} (op : Operation) :
      Built made s → (∀ e ∈ op.env?, e ∈ made) →
      Built (made ++ op.makes s) (s.perform op).2

/-- An operation that fails leaves the store as it was. -/
theorem perform_snd_of_error {s : Store} {op : Operation}
    {fault : RuntimeFault} (h : (s.perform op).1 = .error fault) :
    (s.perform op).2 = s := by
  cases op with
  | new | child | define => cases h
  | ancestor | get | getAt => rfl
  | assign e name v =>
    simp only [perform] at h ⊢
    cases hassign : s.assign e name v <;> rw [hassign] at h
    · rfl
    · cases h
  | assignAt e depth name v =>
    simp only [perform] at h ⊢
    cases hassign : s.assignAt e depth name v <;> rw [hassign] at h
    · rfl
    · cases h

-- ======================================================= what was made

/-- Environments that were made: the scopes of the store are their own
scopes, in their order, and around each is nothing or another of them. -/
structure Formed (made : List Env) (s : Store) : Prop where
  size : s.size = made.length
  scope : ∀ {i : Nat} {e : Env}, made[i]? = some e → e.scope = i
  enclosing : ∀ e ∈ made, e.enclosing = [] ∨
    ∃ parent ∈ made, e.enclosing = parent.chain

namespace Formed

variable {made : List Env} {s s' : Store} {e e' target : Env}

/-- No two have the same scope for their own. -/
theorem eq_of_scope (h : Formed made s) (he : e ∈ made) (he' : e' ∈ made)
    (hscope : e.scope = e'.scope) : e = e' := by
  obtain ⟨i, hi⟩ := List.getElem?_of_mem he
  obtain ⟨j, hj⟩ := List.getElem?_of_mem he'
  have hij : i = j := by rw [← h.scope hi, ← h.scope hj, hscope]
  subst hij
  rw [hi] at hj
  exact Option.some.inj hj

/-- Those around one that was made were made. -/
theorem ancestor_mem (h : Formed made s) {depth : Nat} (he : e ∈ made)
    (htarget : e.ancestor depth = .ok target) : target ∈ made := by
  induction depth generalizing e with
  | zero =>
    cases htarget
    exact he
  | succ depth ih =>
    have hdrop := Env.ancestor_eq_ok.1 htarget
    rw [Env.chain, List.drop_succ_cons] at hdrop
    rcases h.enclosing e he with hnone | ⟨parent, hparent, hchain⟩
    · rw [hnone, List.drop_nil] at hdrop
      cases hdrop
    · rw [hchain] at hdrop
      exact ih hparent (Env.ancestor_eq_ok.2 hdrop)

/-- With a new scope there is a new environment, within nothing or within
one that was made. -/
theorem grow (h : Formed made s) {enclosing : List Nat}
    (henclosing : enclosing = [] ∨
      ∃ parent ∈ made, enclosing = parent.chain) :
    Formed (made ++ [⟨s.size, enclosing⟩]) s.grow where
  size := by simp [h.size]
  scope hi := by
    rw [List.getElem?_append] at hi
    split at hi
    · exact h.scope hi
    · obtain ⟨hlt, rfl⟩ := List.getElem?_eq_some_iff.1 hi
      rw [List.length_singleton] at hlt
      simp only [List.getElem_singleton, h.size]
      omega
  enclosing e he := by
    have hmade {e : Env} (h : e.enclosing = [] ∨
        ∃ parent ∈ made, e.enclosing = parent.chain) :
        e.enclosing = [] ∨ ∃ parent ∈ made ++ [⟨s.size, enclosing⟩],
          e.enclosing = parent.chain := by
      rcases h with h | ⟨parent, hparent, hchain⟩
      · exact .inl h
      · exact .inr ⟨parent, List.mem_append_left _ hparent, hchain⟩
    rcases List.mem_append.1 he with he | he
    · exact hmade (h.enclosing e he)
    · obtain rfl := List.mem_singleton.1 he
      exact hmade henclosing

/-- What is bound makes no difference. -/
theorem resized (h : Formed made s) (hsize : s'.size = s.size) :
    Formed made s' where
  size := hsize.trans h.size
  scope := h.scope
  enclosing := h.enclosing

end Formed

section Outcomes

variable {s : Store} {e : Env} {name : String} {v : Value} {depth : Nat}

theorem get_eq_map :
    s.get e name = (s.reach e name).map Prod.snd := by
  unfold get
  cases s.reach e name <;> rfl

theorem getAt_eq_map :
    s.getAt e depth name = (s.reachAt e depth name).map Prod.snd := by
  unfold getAt
  cases s.reachAt e depth name <;> rfl

theorem assign_eq_map :
    s.assign e name v
      = (s.reach e name).map fun p => (p.2, s.bind p.1 name v) := by
  unfold assign
  cases s.reach e name <;> rfl

theorem assignAt_eq_map :
    s.assignAt e depth name v
      = (s.reachAt e depth name).map fun p => (p.2, s.bind p.1 name v) := by
  unfold assignAt
  cases s.reachAt e depth name <;> rfl

/-- An assignment, successful or not, makes no scope. -/
theorem size_settle_map (found : Except RuntimeFault (Nat × Value)) :
    (s.settle (found.map fun p => (p.2, s.bind p.1 name v))).2.size
      = s.size := by
  cases found with
  | error fault => rfl
  | ok p => exact size_bind ..

end Outcomes

/-- Whatever has been done, the environments made are so formed. -/
theorem Built.formed {made : List Env} {s : Store} (h : Built made s) :
    Formed made s := by
  induction h with
  | empty => exact ⟨rfl, nofun, nofun⟩
  | @step made s op _ hknown ih =>
    have hkept {s' : Store} (hsize : s'.size = s.size) :
        Formed (made ++ []) s' := by
      rw [List.append_nil]
      exact ih.resized hsize
    cases op with
    | new => exact ih.grow (.inl rfl)
    | child e => exact ih.grow (.inr ⟨e, hknown e rfl, rfl⟩)
    | define e name v => exact hkept (size_bind ..)
    | ancestor | get | getAt => exact hkept rfl
    | assign e name v =>
      refine hkept ?_
      rw [perform, assign_eq_map]
      exact size_settle_map _
    | assignAt e depth name v =>
      refine hkept ?_
      rw [perform, assignAt_eq_map]
      exact size_settle_map _

-- ============================================================ the two ways

/-- One store differs from another in what the target's scope binds the
name to, and in nothing else that can be seen of the environments made. -/
structure DiffersAt (s s' : Store) (made : List Env) (target : Env)
    (name : String) (v : Value) : Prop where
  size : s'.size = s.size
  target_mem : target ∈ made
  binds : s'.lookup target.scope name = some v
  names : s'.names target.scope = s.names target.scope
  others : ∀ other, other ≠ name →
    s'.lookup target.scope other = s.lookup target.scope other
  elsewhere : ∀ e ∈ made, e ≠ target →
    s'.bindings e.scope = s.bindings e.scope

/-- To bind a name anew in a scope that binds it is all the difference. -/
theorem Formed.differsAt {made : List Env} {s : Store} {target : Env}
    {name : String} {old : Value} (h : Formed made s)
    (htarget : target ∈ made)
    (hold : s.lookup target.scope name = some old) (v : Value) :
    s.DiffersAt (s.bind target.scope name v) made target name v where
  size := size_bind ..
  target_mem := htarget
  binds := lookup_bind_self
    (lt_size_of_lookup (Option.isSome_iff_exists.2 ⟨old, hold⟩)) name v
  names := names_bind_of_lookup hold v _
  others other hother := lookup_bind_of_ne (.inr hother) v
  elsewhere e he hne := by
    refine bindings_bind_of_ne (fun hscope => hne ?_) name v
    exact h.eq_of_scope he htarget hscope.symm

/-- Whatever has been done with environments, and whichever of them a name is
looked for in: if the scope at some depth is the first of the chain that
binds the name, then to walk and to jump there find the same value, and to
assign in either way gives back the same value and leaves the same store,
which differs from the one before in that binding alone. If no scope of the
chain binds the name, then each of the four fails: a jump beyond the chain
says so, and all others say that the name is undefined. An operation that
fails leaves the store as it was. -/
theorem walking_eq_jumping {made : List Env} {s : Store}
    (hbuilt : Built made s) {e : Env} (he : e ∈ made) (name : String)
    (v : Value) :
    ((∃ depth target old, s.FirstBinds e name depth target old) ∨
        s.BindsNowhere e name) ∧
      (∀ depth target old, s.FirstBinds e name depth target old →
        s.perform (.get e name) = (.ok (.value old), s) ∧
        s.perform (.getAt e depth name) = (.ok (.value old), s) ∧
        ∃ s', s.perform (.assign e name v) = (.ok (.value old), s') ∧
          s.perform (.assignAt e depth name v) = (.ok (.value old), s') ∧
          s.DiffersAt s' made target name v) ∧
      (s.BindsNowhere e name →
        s.perform (.get e name) = (.error (.undefined name), s) ∧
        s.perform (.assign e name v) = (.error (.undefined name), s) ∧
        ∀ depth,
          let fault : RuntimeFault :=
            if depth ≤ e.depth then .undefined name
            else .depthBeyondChain depth
          s.perform (.getAt e depth name) = (.error fault, s) ∧
            s.perform (.assignAt e depth name v) = (.error fault, s)) ∧
      ∀ op fault, (s.perform op).1 = .error fault → (s.perform op).2 = s := by
  refine ⟨s.firstBinds_or_bindsNowhere e name, ?_, ?_, fun op fault h =>
    perform_snd_of_error h⟩
  · intro depth target old h
    refine ⟨?_, ?_, s.bind target.scope name v, ?_, ?_,
      hbuilt.formed.differsAt (hbuilt.formed.ancestor_mem he h.reached)
        h.bound v⟩
    -- Walking stops at the first scope that binds the name, and there the jump
    -- lands.
    · rw [perform, get_eq_map, h.reach]
      rfl
    · rw [perform, getAt_eq_map, h.reachAt]
      rfl
    · rw [perform, assign_eq_map, h.reach]
      rfl
    · rw [perform, assignAt_eq_map, h.reachAt]
      rfl
  · intro h
    refine ⟨?_, ?_, fun depth => ⟨?_, ?_⟩⟩
    -- No way leads to a binding.
    · rw [perform, get_eq_map, h.reach]
      rfl
    · rw [perform, assign_eq_map, h.reach]
      rfl
    · rw [perform, getAt_eq_map, h.reachAt]
      rfl
    · rw [perform, assignAt_eq_map, h.reachAt]
      rfl

/-- A name is bound in the outermost of three scopes and again in the
middle one: an assignment from the innermost changes the middle one. -/
theorem walking_eq_jumping_shadowed :
    let root : Env := ⟨0, []⟩
    let block : Env := ⟨1, [0]⟩
    let body : Env := ⟨2, [1, 0]⟩
    let s : Store := ⟨#[[("a", .nil)], [("a", .bool true)], []]⟩
    Built [root, block, body] s ∧
      s.FirstBinds body "a" 1 block (.bool true) ∧
      ∃ s', s.perform (.assign body "a" .nil)
            = (.ok (.value (.bool true)), s') ∧
          s.perform (.assignAt body 1 "a" .nil)
            = (.ok (.value (.bool true)), s') ∧
          s.DiffersAt s' [root, block, body] block "a" .nil := by
  intro root block body s
  have hbuilt : Built [root, block, body] s :=
    ((((Built.empty.step .new nofun).step (.child root) (by decide)).step
      (.child block) (by decide)).step (.define root "a" .nil)
        (by decide)).step (.define block "a" (.bool true)) (by decide)
  have hfirst : s.FirstBinds body "a" 1 block (.bool true) := by
    refine ⟨rfl, rfl, fun nearer hlt env henv => ?_⟩
    obtain rfl : nearer = 0 := by omega
    cases henv
    rfl
  have hbody : body ∈ [root, block, body] := by decide
  obtain ⟨-, hbound, -, -⟩ := walking_eq_jumping hbuilt hbody "a" .nil
  obtain ⟨-, -, hassign⟩ := hbound 1 block (.bool true) hfirst
  exact ⟨hbuilt, hfirst, hassign⟩

/-- A jump beyond the chain fails as one, also for a name that is bound. -/
example :
    let s : Store := ⟨#[[("a", .nil)]]⟩
    s.perform (.getAt ⟨0, []⟩ 1 "a") = (.error (.depthBeyondChain 1), s) :=
  rfl

end Store

end Lox
