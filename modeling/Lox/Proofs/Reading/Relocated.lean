/-
The same text elsewhere. What some tokens spell does not depend on where
they stand or on the number that their first node gets: at other places,
and numbered from another number on, they spell the same trees up to
just that (`Spells.relocate`). Two programs one behind the other are
therefore read as one whose second part has its own places and numbers
further on (`readProgram_behind`).
-/
import Lox.Proofs.Reading.Scan
import Lox.Proofs.Reading.Numbering

namespace Lox

-- ============================================================= other places

section Places

variable (move : Position → Position)

/-- The name at another place. -/
def Name.moved (name : Name) : Name := { name with pos := move name.pos }

/-- From a number on, the replacement gives a node another place and the
number that is in place of its own, and these go on one by one too. -/
structure Replaces (f : Node → Node) (r : Nat → Nat) (n : Nat) : Prop where
  node : ∀ id pos, n ≤ id → f ⟨id, pos⟩ = ⟨r id, move pos⟩
  succ : ∀ id, n ≤ id → r (id + 1) = r id + 1

/-- From a number on, the replacement gives a node another place and a
number that is greater by so many. -/
def Relocates (f : Node → Node) (n shift : Nat) : Prop :=
  ∀ id pos, n ≤ id → f ⟨id, pos⟩ = ⟨id + shift, move pos⟩

/-- The phrase with its nodes replaced; the parameters of a function
have none of their own. -/
def Phrase.relocate (f : Node → Node) : Phrase → Phrase
  | expr rank e => expr rank (e.mapNodes f)
  | args es => args (Expr.mapAll f es)
  | params names => params (names.map (·.moved move))
  | maybe e => maybe (e.map (·.mapNodes f))
  | varDecl s => varDecl (s.mapNodes f)
  | exprStmt s => exprStmt (s.mapNodes f)
  | clause first => clause (first.map (·.mapNodes f))
  | test e => test (e.mapNodes f)
  | braced node body => braced (f node) (Stmt.mapAll f body)
  | stmt isOpen s => stmt isOpen (s.mapNodes f)
  | decl s => decl (s.mapNodes f)
  | decls ss => decls (Stmt.mapAll f ss)

end Places

-- ================================================================= phrases

section Replace

variable {move : Position → Position} {f : Node → Node} {r : Nat → Nat}
  {n : Nat}

theorem Replaces.mono {n' : Nat} (h : Replaces move f r n)
    (hle : n ≤ n') : Replaces move f r n' :=
  ⟨fun id pos hid => h.node id pos (Nat.le_trans hle hid),
    fun id hid => h.succ id (Nat.le_trans hle hid)⟩

/-- The numbers in place of those that follow on each other. -/
theorem Replaces.add (h : Replaces move f r n) (i : Nat) :
    r (n + i) = r n + i := by
  induction i with
  | zero => rfl
  | succ i ih =>
    rw [← Nat.add_assoc, h.succ _ (Nat.le_add_right n i), ih, Nat.add_assoc]

theorem Connective.mapNodes_join (op : Connective) (node : Node)
    (left right : Expr) :
    (op.join node left right).mapNodes f
      = op.join (f node) (left.mapNodes f) (right.mapNodes f) := by
  cases op <;> rfl

/-- What a `for` stands for, elsewhere. -/
theorem forTree_replace (h : Replaces move f r n) (pos : Position)
    (first : Option Stmt) (test : Expr) (step : Option Expr) (body : Stmt) :
    forTree (move pos) (first.map (·.mapNodes f)) (test.mapNodes f)
        (step.map (·.mapNodes f)) (body.mapNodes f) (r n)
      = ((forTree pos first test step body n).1.mapNodes f,
          r (forTree pos first test step body n).2) := by
  have hnode : ∀ i, f ⟨n + i, pos⟩ = ⟨r n + i, move pos⟩ := by
    intro i
    rw [h.node _ _ (Nat.le_add_right n i), h.add]
  have hnode₀ := hnode 0
  have hnode₁ := hnode 1
  have hnode₂ := hnode 2
  have hnode₃ := hnode 3
  rw [Nat.add_zero, Nat.add_zero] at hnode₀
  have hnumber := h.add
  cases first <;> cases step <;>
    simp [forTree, forLoopTree, forBodyTree, Stmt.mapNodes, Stmt.mapAll,
      hnode₀, hnode₁, hnode₂, hnode₃, Nat.add_assoc, hnumber]

/-- Elsewhere, and numbered from any other number on, the tokens spell
the same. -/
theorem Spells.replace {n' : Nat} {ts : List Token} {p : Phrase}
    (hs : Spells n ts p n') (h : Replaces move f r n) :
    Spells (r n) (ts.map (·.moved move)) (p.relocate move f) (r n') := by
  -- What serves a phrase serves its parts, for they are numbered from no less
  -- on.
  induction hs with
  | literal hvalue =>
    simp only [Phrase.relocate, Expr.mapNodes, h.node _ _ (Nat.le_refl _),
      h.succ _ (Nat.le_refl _)]
    exact .literal hvalue
  | var hkind =>
    simp only [Phrase.relocate, Expr.mapNodes, h.node _ _ (Nat.le_refl _),
      h.succ _ (Nat.le_refl _)]
    exact .var hkind
  | group hopening hs hclosing ih =>
    simp only [Phrase.relocate, Expr.mapNodes, List.map_cons, List.map_append,
      h.node _ _ hs.numbered.le,
      h.succ _ hs.numbered.le]
    exact .group hopening (ih h) hclosing
  | call hcallee hopening hargs hclosing ih₁ ih₂ =>
    have hle := hcallee.numbered.le
    have hle₂ := Nat.le_trans hle hargs.numbered.le
    simp only [Phrase.relocate, Expr.mapNodes, List.map_cons, List.map_append,
      h.node _ _ hle₂, h.node _ _ (Nat.le_succ_of_le hle₂), h.succ _ hle₂,
      h.succ _ (Nat.le_succ_of_le hle₂)]
    exact .call (ih₁ h) hopening (ih₂ (h.mono hle)) hclosing
  | unary hop hs ih =>
    simp only [Phrase.relocate, Expr.mapNodes, List.map_cons,
      h.node _ _ hs.numbered.le,
      h.succ _ hs.numbered.le]
    exact .unary hop (ih h)
  | join hleft hop htighter hright ih₁ ih₂ =>
    have hle := hleft.numbered.le
    have hle₂ := Nat.le_trans hle hright.numbered.le
    simp only [Phrase.relocate, Connective.mapNodes_join, List.map_cons,
      List.map_append, h.node _ _ hle₂,
      h.succ _ hle₂]
    exact .join (ih₁ h) hop htighter (ih₂ (h.mono hle))
  | lift htighter _ ih => exact .lift htighter (ih h)
  | assign htarget hsign hvalue ih₁ ih₂ =>
    have hle := htarget.numbered.le
    have hle₂ := Nat.le_trans hle hvalue.numbered.le
    simp only [Phrase.relocate, Expr.mapNodes, List.map_cons, List.map_append,
      h.node _ _ hle₂,
      h.succ _ hle₂]
    exact .assign (ih₁ h) hsign (ih₂ (h.mono hle))
  | noArgs => exact .noArgs
  | oneArg _ ih => exact .oneArg (ih h)
  | moreArgs hfirst hcomma _ ih₁ ih₂ =>
    simp only [List.map_cons, List.map_append]
    exact .moreArgs (ih₁ h) hcomma (ih₂ (h.mono hfirst.numbered.le))
  | noParams => exact .noParams
  | oneParam hkind => exact .oneParam hkind
  | moreParams hkind hcomma _ ih => exact .moreParams hkind hcomma (ih h)
  | absent => exact .absent
  | present _ ih => exact .present (ih h)
  | varDecl hword hkind hending =>
    have hnode := fun pos => h.node _ pos (Nat.le_refl _)
    simp only [Phrase.relocate, Stmt.mapNodes, Name.mapNode, Option.map_none,
      hnode, h.succ _ (Nat.le_refl _)]
    exact .varDecl hword hkind hending
  | varInit hword hkind hsign hs hending ih =>
    have hnode := fun pos => h.node _ pos hs.numbered.le
    simp only [Phrase.relocate, Stmt.mapNodes, Name.mapNode, Option.map_some,
      List.map_cons, List.map_append, hnode,
      h.succ _ hs.numbered.le]
    exact .varInit hword hkind hsign (ih h) hending
  | exprStmt hs hending ih =>
    simp only [Phrase.relocate, Stmt.mapNodes, List.map_cons, List.map_append,
      h.node _ _ hs.numbered.le,
      h.succ _ hs.numbered.le]
    exact .exprStmt (ih h) hending
  | noClause hending => exact .noClause hending
  | varClause _ ih => exact .varClause (ih h)
  | exprClause _ ih => exact .exprClause (ih h)
  | noTest hending =>
    simp only [Phrase.relocate, Expr.mapNodes, h.node _ _ (Nat.le_refl _),
      h.succ _ (Nat.le_refl _)]
    exact .noTest hending
  | someTest _ hending ih =>
    simp only [List.map_cons, List.map_append]
    exact .someTest (ih h) hending
  | braced hopening hs hclosing ih =>
    simp only [Phrase.relocate, List.map_cons, List.map_append,
      h.node _ _ hs.numbered.le,
      h.succ _ hs.numbered.le]
    exact .braced hopening (ih h) hclosing
  | expression _ ih => exact .expression (ih h)
  | print hword hs hending ih =>
    simp only [Phrase.relocate, Stmt.mapNodes, List.map_cons, List.map_append,
      h.node _ _ hs.numbered.le,
      h.succ _ hs.numbered.le]
    exact .print hword (ih h) hending
  | ret hword hs hending ih =>
    simp only [Phrase.relocate, Stmt.mapNodes, List.map_cons, List.map_append,
      h.node _ _ hs.numbered.le,
      h.succ _ hs.numbered.le]
    exact .ret hword (ih h) hending
  | block _ ih => exact .block (ih h)
  | cond hword hopening htest hclosing hyes ih₁ ih₂ =>
    have hle := htest.numbered.le
    have hle₂ := Nat.le_trans hle hyes.numbered.le
    simp only [Phrase.relocate, Stmt.mapNodes, List.map_cons, List.map_append,
      h.node _ _ hle₂,
      h.succ _ hle₂]
    exact .cond hword hopening (ih₁ h) hclosing (ih₂ (h.mono hle))
  | condElse hword hopening htest hclosing hyes hother hno ih₁ ih₂ ih₃ =>
    have hle := htest.numbered.le
    have hle₂ := Nat.le_trans hle hyes.numbered.le
    have hle₃ := Nat.le_trans hle₂ hno.numbered.le
    simp only [Phrase.relocate, Stmt.mapNodes, List.map_cons, List.map_append,
      h.node _ _ hle₃,
      h.succ _ hle₃]
    exact .condElse hword hopening (ih₁ h) hclosing (ih₂ (h.mono hle)) hother
      (ih₃ (h.mono hle₂))
  | loop hword hopening htest hclosing hbody ih₁ ih₂ =>
    have hle := htest.numbered.le
    have hle₂ := Nat.le_trans hle hbody.numbered.le
    simp only [Phrase.relocate, Stmt.mapNodes, List.map_cons, List.map_append,
      h.node _ _ hle₂,
      h.succ _ hle₂]
    exact .loop hword hopening (ih₁ h) hclosing (ih₂ (h.mono hle))
  | @forLoop _ _ _ _ _ _ _ _ _ word opening closing _ _ _ _ _ hword hopening
      hfirst htest hstep hclosing hbody ih₁ ih₂ ih₃ ih₄ =>
    have hle := hfirst.numbered.le
    have hle₂ := Nat.le_trans hle htest.numbered.le
    have hle₃ := Nat.le_trans hle₂ hstep.numbered.le
    have hle₄ := Nat.le_trans hle₃ hbody.numbered.le
    -- A token that is moved keeps its kind.
    have hword' : (word.moved move).kind = .kwFor := hword
    have hopening' : (opening.moved move).kind = .leftParen := hopening
    have hclosing' : (closing.moved move).kind = .rightParen := hclosing
    have hloop := Spells.forLoop hword' hopening' (ih₁ h) (ih₂ (h.mono hle))
      (ih₃ (h.mono hle₂)) hclosing' (ih₄ (h.mono hle₃))
    rw [Token.moved, forTree_replace (h.mono hle₄)] at hloop
    simp only [Phrase.relocate, List.map_cons, List.map_append]
    exact hloop
  | «variable» _ ih => exact .«variable» (ih h)
  | function hword hkind hopening hparams hclosing hbody ih₁ ih₂ =>
    have hle := hparams.numbered.le
    have hle₂ := Nat.le_trans hle hbody.numbered.le
    have hnode := fun pos => h.node _ pos (Nat.le_succ_of_le hle₂)
    simp only [Phrase.relocate, Stmt.mapNodes, Name.mapNode, List.map_cons,
      List.map_append, h.node _ _ hle₂, hnode, h.succ _ hle₂,
      h.succ _ (Nat.le_succ_of_le hle₂)]
    exact .function hword hkind hopening (ih₁ h) hclosing (ih₂ (h.mono hle))
  | statement _ ih => exact .statement (ih h)
  | nil => exact .nil
  | cons hfirst _ ih₁ ih₂ =>
    simp only [List.map_append]
    exact .cons (ih₁ h) (ih₂ (h.mono hfirst.numbered.le))

end Replace

section Relocate

variable {move : Position → Position} {f : Node → Node} {n shift : Nat}

theorem Relocates.replaces (h : Relocates move f n shift) :
    Replaces move f (· + shift) n :=
  ⟨h, fun id _ => Nat.add_right_comm id 1 shift⟩

/-- Elsewhere, and numbered from a greater number on, the tokens spell
the same. -/
theorem Spells.relocate {n' : Nat} {ts : List Token} {p : Phrase}
    (hs : Spells n ts p n') (h : Relocates move f n shift) :
    Spells (n + shift) (ts.map (·.moved move)) (p.relocate move f)
      (n' + shift) :=
  hs.replace h.replaces

end Relocate

-- ============================================== programs one behind another

theorem Spells.decls_append {n n₁ n₂ : Nat} {ts ts' : List Token}
    {as bs : List Stmt} (ha : Spells n ts (.decls as) n₁)
    (hb : Spells n₁ ts' (.decls bs) n₂) :
    Spells n (ts ++ ts') (.decls (as ++ bs)) n₂ := by
  induction as generalizing n ts with
  | nil =>
    cases ha
    exact hb
  | cons a as ih =>
    cases ha with
    | cons hfirst hothers =>
      rw [List.append_assoc]
      exact .cons hfirst (ih hothers)

/-- The place when its text stands behind another one and a newline: as
many lines and characters are added as these two have. -/
def Position.behind (source : String) (p : Position) : Position :=
  p.below (source.toList.count '\n' + 1) (source.toList.length + 1)

/-- The node when its text stands behind another one. The nodes of the
text are those from this number on. -/
def Node.behind (n : Nat) (source : String) (node : Node) : Node :=
  if n ≤ node.id then { node with pos := node.pos.behind source } else node

theorem Node.id_behind (n : Nat) (source : String) (node : Node) :
    (node.behind n source).id = node.id := by
  unfold behind
  split <;> rfl

theorem relocates_behind (n : Nat) (source : String) :
    Relocates (.behind source) (Node.behind n source) n 0 := by
  intro id pos hid
  rw [Node.behind, if_pos hid]
  rfl

/-- Behind a program and a newline, another program is read as alone,
further down. -/
theorem readProgram_behind {a b : String} {n n₁ n₂ : Nat} {as bs : List Stmt}
    (ha : readProgram a n = (.ok as, n₁))
    (hb : readProgram b n₁ = (.ok bs, n₂)) :
    readProgram (a ++ "\n" ++ b) n
      = (.ok (as ++ Stmt.mapAll (Node.behind n₁ a) bs), n₂) := by
  obtain ⟨ts, eof, hscan, -, hs⟩ := readProgram_eq_ok_iff.1 ha
  obtain ⟨ts', eof', hscan', heof', hs'⟩ := readProgram_eq_ok_iff.1 hb
  obtain ⟨us, eof'', htokens, -, -, hmore⟩ := scanFrom_eq_ok _ _ hscan
  obtain ⟨rfl, -⟩ := List.append_inj' htokens rfl
  refine readProgram_eq_ok_iff.2
    ⟨ts ++ ts'.map (·.moved (.behind a)), eof'.moved (.behind a), ?_, heof',
      hs.decls_append (hs'.relocate (relocates_behind n₁ a))⟩
  have hchars : (a ++ "\n" ++ b).toList = a.toList ++ '\n' :: b.toList := by
    simp
  have hbelow : scanFrom (Position.start.after (a.toList ++ ['\n'])) b.toList
      = .ok ((ts' ++ [eof']).map (·.moved (.behind a))) := by
    rw [Position.after_newline]
    exact scanFrom_below _ _ _ _ hscan'
  rw [scan, hchars, hmore, hbelow]
  simp [Except.map]

end Lox
