/-
The nodes of a tree, and trees that differ in their nodes alone. Two
readings of one text give trees that agree in all but the identities and
the places of their nodes: `mapNodes` replaces these everywhere, and two
trees are the same program up to identities and places when some
replacement makes them equal.

A name has no node of its own; its place is replaced as that of the node
that declares it. The two groupings without a meaning of their own, the
arguments and the parameters, have an identity and no place of their
own.

# What this gives

A tree is not changed by a replacement that leaves its identities alone
(`Stmt.mapAll_of_fixed`), so what was read before some identity is not
touched by a replacement from that identity on. And to give a tree other
identities before its nodes are replaced changes only what the
replacement finds (`Stmt.mapAll_renumber`), so two trees that differ in
identities alone are equal without them.
-/
import Lox.Tree

namespace Lox

variable (f : Node → Node)

-- ============================================================ replacement

/-- A name declared at a node, with the place that the node would get. -/
def Name.mapNode (id : Nat) (name : Name) : Name :=
  ⟨name.text, (f ⟨id, name.pos⟩).pos⟩

mutual

/-- The expression with its nodes replaced. -/
def Expr.mapNodes : Expr → Expr
  | .literal node value => .literal (f node) value
  | .var node name => .var (f node) name
  | .assign node name value => .assign (f node) name (value.mapNodes)
  | .group node inner => .group (f node) (inner.mapNodes)
  | .unary node op operand => .unary (f node) op (operand.mapNodes)
  | .binary node op left right =>
      .binary (f node) op (left.mapNodes) (right.mapNodes)
  | .logical node op left right =>
      .logical (f node) op (left.mapNodes) (right.mapNodes)
  | .call node argsId callee args =>
      .call (f node) (f ⟨argsId, node.pos⟩).id (callee.mapNodes)
        (mapAll args)

/-- The expressions with their nodes replaced. -/
def Expr.mapAll : List Expr → List Expr
  | [] => []
  | e :: es => e.mapNodes :: mapAll es

end

mutual

/-- The statement with its nodes replaced. -/
def Stmt.mapNodes : Stmt → Stmt
  | .expr node value => .expr (f node) (value.mapNodes f)
  | .print node value => .print (f node) (value.mapNodes f)
  | .varDecl node name init =>
      .varDecl (f node) (name.mapNode f node.id) (init.map (·.mapNodes f))
  | .funDecl node name paramsId params bodyNode body =>
      .funDecl (f node) (name.mapNode f node.id)
        (f ⟨paramsId, name.pos⟩).id (params.map (·.mapNode f node.id))
        (f bodyNode) (mapAll body)
  | .block node body => .block (f node) (mapAll body)
  | .cond node test yes none =>
      .cond (f node) (test.mapNodes f) yes.mapNodes none
  | .cond node test yes (some no) =>
      .cond (f node) (test.mapNodes f) yes.mapNodes (some no.mapNodes)
  | .loop node test body =>
      .loop (f node) (test.mapNodes f) body.mapNodes
  | .ret node value => .ret (f node) (value.map (·.mapNodes f))

/-- The statements with their nodes replaced. -/
def Stmt.mapAll : List Stmt → List Stmt
  | [] => []
  | s :: ss => s.mapNodes :: mapAll ss

end

/-- To replace the nodes of some expressions is to replace those of each. -/
theorem Expr.mapAll_eq_map (es : List Expr) :
    Expr.mapAll f es = es.map (·.mapNodes f) := by
  induction es with
  | nil => rfl
  | cons e es ih => rw [Expr.mapAll, ih, List.map_cons]

/-- The same for statements; `mapAll` is there only for the recursion to go
through lists. -/
theorem Stmt.mapAll_eq_map (ss : List Stmt) :
    Stmt.mapAll f ss = ss.map (·.mapNodes f) := by
  induction ss with
  | nil => rfl
  | cons s ss ih => rw [Stmt.mapAll, ih, List.map_cons]

/-- The node of the whole is replaced as those of its parts are, so an error at
the node of a tree is replaced with the tree. -/
@[simp] theorem Expr.node_mapNodes (e : Expr) :
    (e.mapNodes f).node = f e.node := by
  cases e <;> rfl

@[simp] theorem Stmt.node_mapNodes (s : Stmt) :
    (s.mapNodes f).node = f s.node := by
  cases s with
  | cond node test yes no => cases no <;> rfl
  | _ => rfl

/-- The node of a tree that is looked at without its nodes. -/
def Node.blank : Node := ⟨0, .start⟩

/-- The expression up to identities and places. -/
abbrev Expr.bare (e : Expr) : Expr := e.mapNodes fun _ => .blank

/-- The statement up to identities and places. -/
abbrev Stmt.bare (s : Stmt) : Stmt := s.mapNodes fun _ => .blank

/-- The statements up to identities and places. -/
abbrev Stmt.bareAll (ss : List Stmt) : List Stmt :=
  Stmt.mapAll (fun _ => .blank) ss

-- ============================================================= identities

mutual

/-- The identities of the nodes of an expression, its own first. -/
def Expr.ids : Expr → List Nat
  | .literal node _ | .var node _ => [node.id]
  | .assign node _ value => node.id :: value.ids
  | .group node inner => node.id :: inner.ids
  | .unary node _ operand => node.id :: operand.ids
  | .binary node _ left right | .logical node _ left right =>
      node.id :: (left.ids ++ right.ids)
  | .call node argsId callee args =>
      node.id :: argsId :: (callee.ids ++ idsAll args)

/-- The identities of the nodes of some expressions. -/
def Expr.idsAll : List Expr → List Nat
  | [] => []
  | e :: es => e.ids ++ idsAll es

end

/-- The identities of an expression that may be missing. -/
def Expr.idsOf : Option Expr → List Nat
  | none => []
  | some e => e.ids

mutual

/-- The identities of the nodes of a statement, its own first. -/
def Stmt.ids : Stmt → List Nat
  | .expr node value | .print node value => node.id :: value.ids
  | .varDecl node _ init => node.id :: Expr.idsOf init
  | .funDecl node _ paramsId _ bodyNode body =>
      node.id :: paramsId :: bodyNode.id :: idsAll body
  | .block node body => node.id :: idsAll body
  | .cond node test yes none => node.id :: (test.ids ++ yes.ids)
  | .cond node test yes (some no) =>
      node.id :: (test.ids ++ yes.ids ++ no.ids)
  | .loop node test body => node.id :: (test.ids ++ body.ids)
  | .ret node value => node.id :: Expr.idsOf value

/-- The identities of the nodes of some statements. -/
def Stmt.idsAll : List Stmt → List Nat
  | [] => []
  | s :: ss => s.ids ++ idsAll ss

end

-- ============================================================ same places

/-- A replacement that leaves every node in its place. -/
def KeepsPlaces : Prop := ∀ node, (f node).pos = node.pos

/-- The node with another number. -/
def Node.renumber (r : Nat → Nat) (node : Node) : Node :=
  ⟨r node.id, node.pos⟩

/-- Another numbering leaves all places as they are. -/
theorem keepsPlaces_renumber (r : Nat → Nat) :
    KeepsPlaces (Node.renumber r) := fun _ => rfl

section Renumbered

variable (r : Nat → Nat)

mutual

/-- To give other numbers and then replace the nodes is to do both at
once. -/
theorem Expr.mapNodes_renumber : (e : Expr) →
    (e.mapNodes (.renumber r)).mapNodes f = e.mapNodes (f ∘ .renumber r)
  | .literal _ _ | .var _ _ => rfl
  | .assign _ _ e | .group _ e | .unary _ _ e => by
      simp only [Expr.mapNodes, mapNodes_renumber e, Function.comp_apply]
  | .binary _ _ a b | .logical _ _ a b => by
      simp only [Expr.mapNodes, mapNodes_renumber a, mapNodes_renumber b,
        Function.comp_apply]
  | .call _ _ callee args => by
      simp only [Expr.mapNodes, mapNodes_renumber callee,
        mapAll_renumber args, Function.comp_apply]
      rfl

/-- The same for some expressions. -/
theorem Expr.mapAll_renumber : (es : List Expr) →
    Expr.mapAll f (Expr.mapAll (.renumber r) es)
      = Expr.mapAll (f ∘ .renumber r) es
  | [] => rfl
  | e :: es => by
      simp only [Expr.mapAll, mapNodes_renumber e, mapAll_renumber es]

end

/-- The same for an expression that may be missing. -/
theorem Expr.map_renumber (e : Option Expr) :
    (e.map (·.mapNodes (.renumber r))).map (·.mapNodes f)
      = e.map (·.mapNodes (f ∘ .renumber r)) := by
  cases e with
  | none => rfl
  | some e => exact congrArg some (e.mapNodes_renumber f r)

mutual

/-- To give other numbers and then replace the nodes is to do both at
once. -/
theorem Stmt.mapNodes_renumber : (s : Stmt) →
    (s.mapNodes (.renumber r)).mapNodes f = s.mapNodes (f ∘ .renumber r)
  | .expr _ e | .print _ e => by
      simp only [Stmt.mapNodes, e.mapNodes_renumber, Function.comp_apply]
  | .varDecl node name init => by
      simp only [Stmt.mapNodes, Expr.map_renumber, Function.comp_apply]
      rfl
  | .funDecl node name paramsId params bodyNode body => by
      simp only [Stmt.mapNodes, mapAll_renumber body, List.map_map,
        Function.comp_apply]
      rfl
  | .block _ body => by
      simp only [Stmt.mapNodes, mapAll_renumber body, Function.comp_apply]
  | .cond _ test yes none => by
      simp only [Stmt.mapNodes, test.mapNodes_renumber,
        mapNodes_renumber yes, Function.comp_apply]
  | .cond _ test yes (some no) => by
      simp only [Stmt.mapNodes, test.mapNodes_renumber,
        mapNodes_renumber yes, mapNodes_renumber no, Function.comp_apply]
  | .loop _ test body => by
      simp only [Stmt.mapNodes, test.mapNodes_renumber,
        mapNodes_renumber body, Function.comp_apply]
  | .ret _ value => by
      simp only [Stmt.mapNodes, Expr.map_renumber, Function.comp_apply]

/-- The same for statements, and so for a program. -/
theorem Stmt.mapAll_renumber : (ss : List Stmt) →
    Stmt.mapAll f (Stmt.mapAll (.renumber r) ss)
      = Stmt.mapAll (f ∘ .renumber r) ss
  | [] => rfl
  | s :: ss => by
      simp only [Stmt.mapAll, mapNodes_renumber s, mapAll_renumber ss]

end

end Renumbered

-- ============================================================= unchanged

/-- A replacement that leaves the nodes of these identities alone. -/
def Fixes (ids : List Nat) : Prop :=
  ∀ id ∈ ids, ∀ pos, f ⟨id, pos⟩ = ⟨id, pos⟩

variable {f}

/-- What leaves many identities alone leaves fewer of them alone, such as those
of a part of the tree. -/
theorem Fixes.mono {small large : List Nat} (h : Fixes f large)
    (hsub : ∀ id ∈ small, id ∈ large) : Fixes f small :=
  fun id hid => h id (hsub id hid)

/-- A name has its place from the node that declares it, and keeps it with the
identity of that node. -/
theorem Name.mapNode_of_fixed {ids : List Nat} {id : Nat} {name : Name}
    (h : Fixes f ids) (hid : id ∈ ids) : name.mapNode f id = name := by
  simp [Name.mapNode, h id hid]

mutual

/-- An expression is not changed by a replacement that leaves its identities
alone. -/
theorem Expr.mapNodes_of_fixed : (e : Expr) → Fixes f e.ids →
    e.mapNodes f = e
  | .literal _ _, h | .var _ _, h => by
      simp [Expr.mapNodes, h _ (List.mem_cons_self ..)]
  | .assign _ _ e, h | .group _ e, h | .unary _ _ e, h => by
      simp [Expr.mapNodes, h _ (List.mem_cons_self ..),
        e.mapNodes_of_fixed (h.mono (by simp +contextual [Expr.ids]))]
  | .binary _ _ a b, h | .logical _ _ a b, h => by
      simp [Expr.mapNodes, h _ (List.mem_cons_self ..),
        a.mapNodes_of_fixed (h.mono (by simp +contextual [Expr.ids])),
        b.mapNodes_of_fixed (h.mono (by simp +contextual [Expr.ids]))]
  | .call node argsId callee args, h => by
      simp [Expr.mapNodes, h _ (List.mem_cons_self ..),
        h argsId (by simp [Expr.ids]),
        callee.mapNodes_of_fixed (h.mono (by simp +contextual [Expr.ids])),
        mapAll_of_fixed args (h.mono (by simp +contextual [Expr.ids]))]

/-- The same for some expressions. -/
theorem Expr.mapAll_of_fixed : (es : List Expr) →
    Fixes f (Expr.idsAll es) → Expr.mapAll f es = es
  | [], _ => rfl
  | e :: es, h => by
      simp [Expr.mapAll,
        e.mapNodes_of_fixed (h.mono (by simp +contextual [Expr.idsAll])),
        mapAll_of_fixed es (h.mono (by simp +contextual [Expr.idsAll]))]

end

/-- The same for an expression that may be missing. -/
theorem Expr.map_of_fixed {e : Option Expr} (h : Fixes f (Expr.idsOf e)) :
    e.map (·.mapNodes f) = e := by
  cases e with
  | none => rfl
  | some e => simp [e.mapNodes_of_fixed h]

mutual

/-- A statement is not changed by a replacement that leaves its identities
alone, those of the groupings without a place among them. -/
theorem Stmt.mapNodes_of_fixed : (s : Stmt) → Fixes f s.ids →
    s.mapNodes f = s
  | .expr _ e, h | .print _ e, h => by
      simp [Stmt.mapNodes, h _ (List.mem_cons_self ..),
        e.mapNodes_of_fixed (h.mono (by simp +contextual [Stmt.ids]))]
  | .varDecl node name init, h => by
      have hname : name.mapNode f node.id = name :=
        Name.mapNode_of_fixed h (List.mem_cons_self ..)
      have hinit : init.map (·.mapNodes f) = init :=
        Expr.map_of_fixed (h.mono (by simp +contextual [Stmt.ids]))
      simp [Stmt.mapNodes, h _ (List.mem_cons_self ..), hname, hinit]
  | .funDecl node name paramsId params bodyNode body, h => by
      have hname : ∀ p : Name, p.mapNode f node.id = p := fun _ =>
        Name.mapNode_of_fixed h (List.mem_cons_self ..)
      simp [Stmt.mapNodes, h _ (List.mem_cons_self ..), hname,
        h paramsId (by simp [Stmt.ids]),
        h bodyNode.id (by simp [Stmt.ids]),
        mapAll_of_fixed body (h.mono (by simp +contextual [Stmt.ids]))]
  | .block node body, h => by
      simp [Stmt.mapNodes, h _ (List.mem_cons_self ..),
        mapAll_of_fixed body (h.mono (by simp +contextual [Stmt.ids]))]
  | .cond _ test yes none, h => by
      simp [Stmt.mapNodes, h _ (List.mem_cons_self ..),
        test.mapNodes_of_fixed (h.mono (by simp +contextual [Stmt.ids])),
        yes.mapNodes_of_fixed (h.mono (by simp +contextual [Stmt.ids]))]
  | .cond _ test yes (some no), h => by
      simp [Stmt.mapNodes, h _ (List.mem_cons_self ..),
        test.mapNodes_of_fixed (h.mono (by simp +contextual [Stmt.ids])),
        yes.mapNodes_of_fixed (h.mono (by simp +contextual [Stmt.ids])),
        no.mapNodes_of_fixed (h.mono (by simp +contextual [Stmt.ids]))]
  | .loop _ test body, h => by
      simp [Stmt.mapNodes, h _ (List.mem_cons_self ..),
        test.mapNodes_of_fixed (h.mono (by simp +contextual [Stmt.ids])),
        body.mapNodes_of_fixed (h.mono (by simp +contextual [Stmt.ids]))]
  | .ret _ value, h => by
      have hvalue : value.map (·.mapNodes f) = value :=
        Expr.map_of_fixed (h.mono (by simp +contextual [Stmt.ids]))
      simp [Stmt.mapNodes, h _ (List.mem_cons_self ..), hvalue]

/-- The same for statements, and so for a program. -/
theorem Stmt.mapAll_of_fixed : (ss : List Stmt) →
    Fixes f (Stmt.idsAll ss) → Stmt.mapAll f ss = ss
  | [], _ => rfl
  | s :: ss, h => by
      simp [Stmt.mapAll,
        s.mapNodes_of_fixed (h.mono (by simp +contextual [Stmt.idsAll])),
        mapAll_of_fixed ss (h.mono (by simp +contextual [Stmt.idsAll]))]

end

end Lox
