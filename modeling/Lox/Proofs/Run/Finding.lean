/-
Where names are bound. A chain of scopes is walked outwards from its own
scope, or left for the scope so far out; what is found in either way is
a value that is stored, and a scope that binds a name is one of the
store. To bind a name changes what that scope binds to it and nothing
else.
-/
import Lox.Proofs.Run.Laws

namespace Lox

-- =============================================================== reaching

namespace Env

/-- So far out on the chain there is an environment, and the walk outwards
comes to it. -/
theorem ancestor_of_chain {e : Env} {depth scope : Nat}
    (h : e.chain[depth]? = some scope) :
    ∃ enclosing, e.ancestor depth = .ok ⟨scope, enclosing⟩ := by
  obtain ⟨hlt, rfl⟩ := List.getElem?_eq_some_iff.1 h
  refine ⟨e.chain.drop (depth + 1), ?_⟩
  unfold ancestor
  rw [List.drop_eq_getElem_cons hlt]

/-- What the walk comes to is on the chain, so far out. -/
theorem chain_of_ancestor {e target : Env} {depth : Nat}
    (h : e.ancestor depth = .ok target) :
    e.chain[depth]? = some target.scope := by
  unfold ancestor at h
  split at h
  · next scope enclosing hdrop =>
    cases h
    rw [← List.head?_drop, hdrop]
    rfl
  · cases h

/-- It does not come further out than the globals. -/
theorem le_depth_of_ancestor {e target : Env} {depth : Nat}
    (h : e.ancestor depth = .ok target) : depth ≤ e.depth := by
  obtain ⟨hlt, -⟩ := List.getElem?_eq_some_iff.1 (chain_of_ancestor h)
  exact Nat.le_of_lt_succ hlt

end Env

namespace Store

/-- What a scope binds the name to, and the scope with it. -/
def findIn (s : Store) (scope : Nat) (name : String) :
    Except RuntimeFault (Nat × Value) :=
  match s.lookup scope name with
  | some v => .ok (scope, v)
  | none => .error (.undefined name)

section FindIn

variable {s : Store} {scope : Nat} {name : String}

/-- A name that the scope binds is found there. -/
theorem findIn_of_some {v : Value} (h : s.lookup scope name = some v) :
    s.findIn scope name = .ok (scope, v) := by
  unfold findIn
  rw [h]

/-- A name that it does not bind is not looked for elsewhere. -/
theorem findIn_of_none (h : s.lookup scope name = none) :
    s.findIn scope name = .error (.undefined name) := by
  unfold findIn
  rw [h]

/-- What is found is bound where it is found. -/
theorem lookup_of_findIn {other : Nat} {v : Value}
    (h : s.findIn scope name = .ok (other, v)) :
    s.lookup other name = some v := by
  cases hlookup : s.lookup scope name with
  | some w =>
    rw [findIn_of_some hlookup] at h
    cases h
    exact hlookup
  | none =>
    rw [findIn_of_none hlookup] at h
    cases h

/-- What is found in a scope is found there. -/
theorem scope_of_findIn {other : Nat} {v : Value}
    (h : s.findIn scope name = .ok (other, v)) : other = scope := by
  unfold findIn at h
  split at h <;> cases h
  rfl

/-- The only fault is that the scope does not bind the name. -/
theorem findIn_eq_error {fault : RuntimeFault}
    (h : s.findIn scope name = .error fault) : fault = .undefined name := by
  cases hlookup : s.lookup scope name with
  | some v =>
    rw [findIn_of_some hlookup] at h
    cases h
  | none =>
    rw [findIn_of_none hlookup] at h
    cases h
    rfl

end FindIn

/-- To jump so far out is to look into the scope there. -/
theorem reachAt_of_chain {s : Store} {e : Env} {depth scope : Nat}
    {name : String} (h : e.chain[depth]? = some scope) :
    s.reachAt e depth name = s.findIn scope name := by
  obtain ⟨enclosing, hancestor⟩ := Env.ancestor_of_chain h
  unfold reachAt
  rw [hancestor]
  rfl

/-- From the globals there is no way further out. -/
theorem reach_globals (s : Store) (name : String) :
    s.reach .globals name = s.findIn 0 name := by
  unfold reach findIn Env.globals Env.chain
  cases h : s.lookup 0 name <;> simp [h]

/-- If no other scope of the chain binds the name, it is found in this
one or nowhere. -/
theorem reach_of_only {s : Store} {e : Env} {scope : Nat} {name : String}
    (hmem : scope ∈ e.chain)
    (honly : ∀ i ∈ e.chain, (s.lookup i name).isSome = true → i = scope) :
    s.reach e name = s.findIn scope name := by
  -- Said of any chain, so that the induction can be on it.
  have hwalk : ∀ chain : List Nat, scope ∈ chain →
      (∀ i ∈ chain, (s.lookup i name).isSome = true → i = scope) →
      chain.findSome? (fun i => (s.lookup i name).map (i, ·))
        = (s.lookup scope name).map (scope, ·) := by
    intro chain
    induction chain with
    | nil => exact fun hmem => absurd hmem List.not_mem_nil
    | cons i chain ih =>
      intro hmem honly
      rw [List.forall_mem_cons] at honly
      rw [List.findSome?_cons]
      cases hi : s.lookup i name with
      | some v =>
        have hscope := honly.1 (by rw [hi]; rfl)
        rw [← hscope, hi]
        rfl
      | none =>
        rcases List.mem_cons.1 hmem with rfl | hmem
        · rw [hi]
          refine List.findSome?_eq_none_iff.2 fun j hj => ?_
          cases hv : s.lookup j name with
          | none => rfl
          | some v =>
            have hscope := honly.2 j hj (by rw [hv]; rfl)
            rw [hscope, hi] at hv
            cases hv
        · exact ih hmem honly.2
  unfold reach findIn
  rw [hwalk e.chain hmem honly]
  cases s.lookup scope name <;> rfl

/-- A scope that is not there binds nothing. -/
theorem lookup_of_size_le {s : Store} {scope : Nat} (h : s.size ≤ scope)
    (name : String) : s.lookup scope name = none := by
  have hnone : s.scopes[scope]? = none := Array.getElem?_eq_none h
  simp [lookup, bindings, hnone, Bindings.find?]

/-- A scope that binds something is in the store. -/
theorem lt_size_of_lookup {s : Store} {scope : Nat} {name : String}
    (h : (s.lookup scope name).isSome = true) : scope < s.size := by
  rcases Nat.lt_or_ge scope s.size with hlt | hge
  · exact hlt
  · rw [lookup_of_size_le hge] at h
    cases h

/-- Another scope is not touched. -/
theorem bindings_bind_of_ne {s : Store} {scope other : Nat}
    (h : scope ≠ other) (name : String) (v : Value) :
    (s.bind scope name v).bindings other = s.bindings other := by
  rw [bindings_bind, if_neg fun heq => h heq.1]

/-- To bind names one after another keeps what is kept each time. -/
theorem defineAll_of_define {Q : Store → Prop} {s : Store} {env : Env}
    {named : List (String × Value)} (h : Q s)
    (hdefine : ∀ s, ∀ p ∈ named, Q s → Q (s.define env p.1 p.2)) :
    Q (s.defineAll env named) := by
  induction named generalizing s with
  | nil => exact h
  | cons p named ih =>
    refine ih (hdefine s p List.mem_cons_self h) fun s q hq => ?_
    exact hdefine s q (List.mem_cons_of_mem _ hq)

/-- To declare names makes no scope. -/
@[simp] theorem size_defineAll (s : Store) (env : Env)
    (named : List (String × Value)) :
    (s.defineAll env named).size = s.size :=
  defineAll_of_define (Q := (·.size = s.size)) rfl
    fun _ _ _ h => (size_bind ..).trans h

/-- It changes no other scope. -/
theorem bindings_defineAll_of_ne {s : Store} {env : Env} {other : Nat}
    (h : env.scope ≠ other) (named : List (String × Value)) :
    (s.defineAll env named).bindings other = s.bindings other :=
  defineAll_of_define (Q := (·.bindings other = s.bindings other)) rfl
    fun _ _ _ hs => (bindings_bind_of_ne h ..).trans hs

/-- A binding is found in its scope under its name, and all others are what
they were. -/
theorem lookup_bind {s : Store} {scope : Nat} (h : scope < s.size)
    (name : String) (v : Value) (other : Nat) (otherName : String) :
    (s.bind scope name v).lookup other otherName
      = if other = scope ∧ otherName = name then some v
        else s.lookup other otherName := by
  split
  · next heq =>
    obtain ⟨rfl, rfl⟩ := heq
    exact lookup_bind_self h _ v
  · next hne =>
    exact lookup_bind_of_ne (by
      rcases Decidable.em (other = scope) with heq | hne'
      · exact .inr fun heq' => hne ⟨heq, heq'⟩
      · exact .inl hne') v

/-- A value that is stored after a binding is the one that was bound, or
was stored before. -/
theorem lookup_bind_eq_some {s : Store} {scope other : Nat}
    {name otherName : String} {v w : Value}
    (h : (s.bind scope name v).lookup other otherName = some w) :
    w = v ∨ s.lookup other otherName = some w := by
  by_cases hsame : other = scope ∧ otherName = name
  · obtain ⟨rfl, rfl⟩ := hsame
    have hlt := lt_size_of_lookup (Option.isSome_iff_exists.2 ⟨w, h⟩)
    rw [size_bind] at hlt
    rw [lookup_bind_self hlt] at h
    exact .inl (Option.some.inj h).symm
  · rw [lookup_bind_of_ne (Decidable.not_and_iff_or_not.1 hsame)] at h
    exact .inr h

/-- What is bound after a binding was so before, or is what was bound. -/
theorem isSome_lookup_bind {s : Store} {scope other : Nat}
    {name otherName : String} {v : Value}
    (h : ((s.bind scope name v).lookup other otherName).isSome = true) :
    (s.lookup other otherName).isSome = true ∨
      other = scope ∧ otherName = name := by
  by_cases hsame : other = scope ∧ otherName = name
  · exact .inr hsame
  · rw [lookup_bind_of_ne (Decidable.not_and_iff_or_not.1 hsame)] at h
    exact .inl h

end Store

-- =============================================================== accesses

namespace Access

/-- A use with an entry in the table, if that leads to a scope of the
chain. -/
theorem find_byDepth_of_chain {depths : Depths} {store : Store} {env : Env}
    {id depth scope : Nat} {name : String}
    (hentry : depths[id]? = some depth)
    (hchain : env.chain[depth]? = some scope) :
    (byDepth depths).find store env id name = store.findIn scope name := by
  simp only [byDepth, hentry]
  exact Store.reachAt_of_chain hchain

/-- A use without an entry in the table. -/
theorem find_byDepth_of_none {depths : Depths} {store : Store} {env : Env}
    {id : Nat} {name : String} (hentry : depths[id]? = none) :
    (byDepth depths).find store env id name = store.findIn 0 name := by
  simp only [byDepth, hentry]
  exact Store.reach_globals store name

/-- What is found is bound where it is found, and that is such a place for
a use in the environment. -/
def Finds (access : Access) (place : Env → Nat → Prop) : Prop :=
  ∀ {store : Store} {env : Env} {id : Nat} {name : String} {scope : Nat}
    {v : Value}, access.find store env id name = .ok (scope, v) →
      store.lookup scope name = some v ∧ place env scope

end Access

/-- The scopes that a use in the environment looks into: those of its
chain and that of the globals. -/
def Env.Sees (env : Env) (scope : Nat) : Prop :=
  scope ∈ env.chain ∨ scope = 0

namespace Access

/-- What is found is bound where it is found, and the environment sees
it there. -/
abbrev Honest (access : Access) : Prop := access.Finds Env.Sees

/-- The table leads along the chain, whatever it says, or to the globals. -/
theorem byDepth_honest (depths : Depths) : (byDepth depths).Honest := by
  intro store env id name scope v h
  cases hentry : depths[id]? with
  | some depth =>
    simp only [byDepth, hentry] at h
    obtain ⟨target, htarget, h⟩ := Except.bind_eq_ok h
    have hscope : scope = target.scope := Store.scope_of_findIn h
    have hchain := Env.chain_of_ancestor htarget
    exact ⟨Store.lookup_of_findIn h,
      .inl (hscope ▸ List.mem_of_getElem? hchain)⟩
  | none =>
    rw [find_byDepth_of_none hentry] at h
    exact ⟨Store.lookup_of_findIn h, .inr (Store.scope_of_findIn h)⟩

end Access

-- ========================================================= stored values

/-- This holds of every stored value. -/
def Store.All (Q : Value → Prop) (s : Store) : Prop :=
  ∀ scope name v, s.lookup scope name = some v → Q v

namespace Store.All

variable {Q : Value → Prop} {s : Store}

/-- To bind a value of which this holds keeps it of all. -/
theorem bind (h : s.All Q) {scope : Nat} {name : String} {v : Value}
    (hv : Q v) : (s.bind scope name v).All Q := by
  intro other otherName w hw
  rcases lookup_bind_eq_some hw with rfl | hw
  · exact hv
  · exact h _ _ _ hw

/-- A new scope binds nothing. -/
theorem grow (h : s.All Q) : s.grow.All Q := by
  intro scope name v hv
  rw [lookup_grow] at hv
  exact h _ _ _ hv

/-- The same for parameters, of which it holds each. -/
theorem defineAll (h : s.All Q) {env : Env}
    {named : List (String × Value)} (hnamed : ∀ p ∈ named, Q p.2) :
    (s.defineAll env named).All Q :=
  defineAll_of_define h fun _ p hp h => h.bind (hnamed p hp)

end Store.All

end Lox
