/-
From words to tokens that spell a tree. The words of a tree of the shape
that the levels ask for spell the tree, up to the identities and places
of its nodes, whatever tokens say the words; only an `else` that a
nearer `if` would take can keep them from it.
-/
import Lox.Proofs.Reading.Words

namespace Lox

/-- Ranks are told apart by how tight they bind. -/
theorem Rank.tightness_inj {a b : Rank} (h : a.tightness = b.tightness) :
    a = b := by
  cases a with
  | level ℓ =>
    cases b with
    | level ℓ' => cases ℓ <;> cases ℓ' <;> first | rfl | cases h
    | _ => cases ℓ <;> cases h
  | _ =>
    cases b with
    | level ℓ' => cases ℓ' <;> cases h
    | _ => first | rfl | cases h

/-- A phrase of a tighter rank is one of every looser. -/
theorem Spells.loosen {n n' : Nat} {ts : List Token} {rank : Rank}
    {e : Expr} (h : Spells n ts (.expr rank e) n') (loose : Rank)
    (hle : loose.tightness ≤ rank.tightness) :
    Spells n ts (.expr loose e) n' := by
  -- The induction is on how far the ranks are apart.
  induction hk : rank.tightness - loose.tightness generalizing loose with
  | zero =>
    obtain rfl := Rank.tightness_inj
      (show loose.tightness = rank.tightness by omega)
    exact h
  | succ k ih =>
    obtain ⟨next, hnext⟩ : ∃ next, loose.tighter? = some next := by
      cases loose with
      | primary =>
        have : rank.tightness ≤ 9 := by
          cases rank with
          | level ℓ => cases ℓ <;> decide
          | _ => decide
        have : Rank.tightness .primary = 9 := rfl
        omega
      | _ => exact ⟨_, rfl⟩
    have htight := Rank.tightness_tighter? hnext
    exact .lift hnext (ih next (by omega) (by omega))

/-- The rank of an expression. -/
def Expr.rank : Expr → Rank
  | .assign _ _ _ => .assignment
  | .logical _ op _ _ => .level op.level
  | .binary _ op _ _ => .level op.level
  | .unary _ _ _ => .unary
  | .call _ _ _ _ => .call
  | .literal _ _ | .var _ _ | .group _ _ => .primary

/-- The rank of an expression is the loosest at which it can be read without
parentheses. -/
theorem Expr.tightness_rank (e : Expr) : e.rank.tightness = e.tightness := by
  cases e <;> rfl

/-- Some expression that is the same up to its nodes is spelled so. -/
def Expr.SpelledBy (n : Nat) (ts : List Token) (e : Expr) : Prop :=
  ∃ e' n', Spells n ts (.expr e.rank e') n' ∧ e'.bare = e.bare

/-- Wherever the rank of an expression may stand. -/
theorem Expr.SpelledBy.loosen {n : Nat} {ts : List Token} {e : Expr}
    (h : e.SpelledBy n ts) (loose : Rank)
    (hle : loose.tightness ≤ e.tightness) :
    ∃ e' n', Spells n ts (.expr loose e') n' ∧ e'.bare = e.bare := by
  obtain ⟨e', n', hs, hbare⟩ := h
  exact ⟨e', n', hs.loosen loose (by rwa [Expr.tightness_rank]), hbare⟩

/-- A right operand, with its connective and the left operand. -/
theorem Expr.SpelledBy.join (op : Connective) {n n₁ : Nat}
    {ts₁ ts₂ : List Token} {node : Node} {sign : Token}
    {left left' right : Expr} (h : right.SpelledBy n₁ ts₂)
    (hleft : Spells n ts₁ (.expr (.level op.level) left') n₁)
    (hbare : left'.bare = left.bare) (hsign : sign.kind = op.kind)
    (htight : op.level.tightness < right.tightness) :
    (op.join node left right).SpelledBy n (ts₁ ++ sign :: ts₂) := by
  obtain ⟨tighter, htighter⟩ :
      ∃ tighter, (Rank.level op.level).tighter? = some tighter := ⟨_, rfl⟩
  have hrank : tighter.tightness = op.level.tightness + 1 :=
    Rank.tightness_tighter? htighter
  obtain ⟨right', n₂, hs, hbare'⟩ := h.loosen tighter (by omega)
  refine ⟨op.join ⟨n₂, sign.pos⟩ left' right', n₂ + 1, ?_, ?_⟩
  · have := Spells.join hleft (Level.connective?_eq_some.2 ⟨rfl, hsign⟩)
      htighter hs
    rcases op with op | op <;> exact this
  · rcases op with op | op <;>
      simp [Connective.join, Expr.mapNodes, hbare, hbare']

mutual

/-- The words of a well formed expression spell it. -/
theorem Expr.spelledBy : (e : Expr) → e.WellFormed → ∀ {ts : List Token}
    (n : Nat), ts.map Token.word = e.render → e.SpelledBy n ts
  | .literal node value, _, ts, n, h => by
      obtain ⟨t, rfl, ht⟩ := List.map_eq_singleton_iff.1 h
      exact ⟨_, _, .literal (Literal.ofToken?_eq_some.2 ht), rfl⟩
  | .var node name, _, ts, n, h => by
      obtain ⟨t, rfl, ht⟩ := List.map_eq_singleton_iff.1 h
      obtain ⟨hkind, rfl⟩ := Token.identifier_of_word ht
      exact ⟨_, _, .var hkind, rfl⟩
  | .assign _ name value, hw, ts, n, h => by
      obtain ⟨t, ts', rfl, ht, h'⟩ := List.map_eq_cons_iff.1 h
      obtain ⟨sign, rest, rfl, hsign, hrest⟩ := List.map_eq_cons_iff.1 h'
      obtain ⟨hkind, rfl⟩ := Token.identifier_of_word ht
      obtain ⟨value', n', hs, hbare⟩ :=
        (value.spelledBy hw (n + 1) hrest).loosen .assignment (Nat.zero_le _)
      -- The target of an assignment is the name alone, at whatever rank it is
      -- read.
      have htarget : Spells n [t]
          (.expr (.level .or) (.var ⟨n, t.pos⟩ t.lexeme)) (n + 1) :=
        Spells.loosen (.var hkind) _ (by decide)
      exact ⟨_, _, .assign htarget (Token.kind_of_word hsign) hs,
        by simp [Expr.mapNodes, hbare]⟩
  | .group _ inner, hw, ts, n, h => by
      obtain ⟨opening, ts', rfl, hopen, h'⟩ := List.map_eq_cons_iff.1 h
      obtain ⟨ts, last, rfl, hts, hlast⟩ := List.map_eq_append_iff.1 h'
      obtain ⟨closing, rfl, hclose⟩ := List.map_eq_singleton_iff.1 hlast
      obtain ⟨inner', n', hs, hbare⟩ := (inner.spelledBy hw n hts).loosen
        .assignment (Nat.zero_le _)
      exact ⟨_, _, .group (Token.kind_of_word hopen) hs
        (Token.kind_of_word hclose), by simp [Expr.mapNodes, hbare]⟩
  | .unary _ op operand, hw, ts, n, h => by
      obtain ⟨sign, ts', rfl, hsign, h'⟩ := List.map_eq_cons_iff.1 h
      obtain ⟨operand', n', hs, hbare⟩ :=
        (operand.spelledBy hw.2 n h').loosen .unary hw.1
      have hkind := UnaryOp.ofKind?_eq_some.2 (Token.kind_of_word hsign)
      exact ⟨_, _, .unary hkind hs, by simp [Expr.mapNodes, hbare]⟩
  | .binary _ op left right, hw, ts, n, h => by
      obtain ⟨ts₁, ts', rfl, hleft, h'⟩ := List.map_eq_append_iff.1 h
      obtain ⟨sign, ts₂, rfl, hsign, hright⟩ := List.map_eq_cons_iff.1 h'
      obtain ⟨left', n₁, hs₁, hbare₁⟩ :=
        (left.spelledBy hw.1.2 n hleft).loosen (.level op.level) hw.1.1
      exact .join (.binary op) (right.spelledBy hw.2.2 n₁ hright) hs₁ hbare₁
        (Token.kind_of_word hsign) hw.2.1
  | .logical _ op left right, hw, ts, n, h => by
      obtain ⟨ts₁, ts', rfl, hleft, h'⟩ := List.map_eq_append_iff.1 h
      obtain ⟨sign, ts₂, rfl, hsign, hright⟩ := List.map_eq_cons_iff.1 h'
      obtain ⟨left', n₁, hs₁, hbare₁⟩ :=
        (left.spelledBy hw.1.2 n hleft).loosen (.level op.level) hw.1.1
      exact .join (.logical op) (right.spelledBy hw.2.2 n₁ hright) hs₁ hbare₁
        (Token.kind_of_word hsign) hw.2.1
  | .call _ _ callee args, hw, ts, n, h => by
      obtain ⟨ts₁, ts', rfl, hcallee, h'⟩ := List.map_eq_append_iff.1 h
      obtain ⟨opening, ts'', rfl, hopen, h''⟩ := List.map_eq_cons_iff.1 h'
      obtain ⟨ts₂, last, rfl, hargs, hlast⟩ := List.map_eq_append_iff.1 h''
      obtain ⟨closing, rfl, hclose⟩ := List.map_eq_singleton_iff.1 hlast
      obtain ⟨callee', n₁, hs₁, hbare₁⟩ :=
        (callee.spelledBy hw.1.2 n hcallee).loosen .call hw.1.1
      obtain ⟨args', n₂, hs₂, hbare₂⟩ := spelledBy_args args hw.2 n₁ hargs
      exact ⟨_, _, .call hs₁ (Token.kind_of_word hopen) hs₂
        (Token.kind_of_word hclose), by simp [Expr.mapNodes, hbare₁, hbare₂]⟩

/-- The words of well formed arguments spell them. -/
theorem Expr.spelledBy_args : (es : List Expr) → Expr.AllWellFormed es →
    ∀ {ts : List Token} (n : Nat), ts.map Token.word = Expr.renderArgs es →
      ∃ es' n', Spells n ts (.args es') n' ∧
        Expr.mapAll (fun _ => .blank) es' = Expr.mapAll (fun _ => .blank) es
  | [], _, ts, n, h => by
      obtain rfl := List.map_eq_nil_iff.1 h
      exact ⟨[], n, .noArgs, rfl⟩
  | [e], hw, ts, n, h => by
      obtain ⟨e', n', hs, hbare⟩ := (e.spelledBy hw.1 n h).loosen
        .assignment (Nat.zero_le _)
      exact ⟨[e'], n', .oneArg hs, by simp [Expr.mapAll, hbare]⟩
  | e :: e₂ :: es, hw, ts, n, h => by
      obtain ⟨ts₁, ts', rfl, hfirst, h'⟩ := List.map_eq_append_iff.1 h
      obtain ⟨comma, ts₂, rfl, hcomma, hothers⟩ := List.map_eq_cons_iff.1 h'
      obtain ⟨e', n₁, hs₁, hbare₁⟩ := (e.spelledBy hw.1 n hfirst).loosen
        .assignment (Nat.zero_le _)
      obtain ⟨es', n₂, hs₂, hbare₂⟩ :=
        spelledBy_args (e₂ :: es) hw.2 n₁ hothers
      -- No argument is lost, so one more follows the comma.
      obtain ⟨e₂', es', rfl⟩ : ∃ e₂' es'', es' = e₂' :: es'' := by
        cases es' with
        | nil => cases hbare₂
        | cons e₂' es'' => exact ⟨e₂', es'', rfl⟩
      exact ⟨_, _, .moreArgs hs₁ (Token.kind_of_word hcomma) hs₂,
        List.cons_eq_cons.2 ⟨hbare₁, hbare₂⟩⟩

end

/-- The words of an expression that may be missing spell it. -/
theorem Expr.spelledBy_option {e : Option Expr}
    (hw : Expr.OptionWellFormed e) {ts : List Token} (n : Nat)
    (h : ts.map Token.word = Expr.renderOption e) :
    ∃ e' n', Spells n ts (.maybe e') n' ∧
      e'.map Expr.bare = e.map Expr.bare := by
  cases e with
  | none =>
    obtain rfl := List.map_eq_nil_iff.1 h
    exact ⟨none, n, .absent, rfl⟩
  | some e =>
    obtain ⟨e', n', hs, hbare⟩ := (e.spelledBy (hw e rfl) n h).loosen
      .assignment (Nat.zero_le _)
    exact ⟨some e', n', .present hs, congrArg some hbare⟩

/-- The words of parameters spell them. -/
theorem Name.spelledBy_params (names : List Name) {ts : List Token}
    (n : Nat) (h : ts.map Token.word = Name.renderAll names) :
    ∃ names', Spells n ts (.params names') n ∧
      names'.map Name.text = names.map Name.text := by
  induction names generalizing ts with
  | nil =>
    obtain rfl := List.map_eq_nil_iff.1 h
    exact ⟨[], .noParams, rfl⟩
  | cons name names ih =>
    cases names with
    | nil =>
      obtain ⟨t, rfl, ht⟩ := List.map_eq_singleton_iff.1 h
      obtain ⟨hkind, htext⟩ := Token.identifier_of_word ht
      exact ⟨_, .oneParam hkind, by simp [htext]⟩
    | cons name₂ names =>
      obtain ⟨t, ts', rfl, ht, h'⟩ := List.map_eq_cons_iff.1 h
      obtain ⟨comma, rest, rfl, hcomma, hrest⟩ := List.map_eq_cons_iff.1 h'
      obtain ⟨hkind, htext⟩ := Token.identifier_of_word ht
      obtain ⟨names', hs, hnames⟩ := ih hrest
      -- No parameter is lost either.
      obtain ⟨name₂', names', rfl⟩ : ∃ a as, names' = a :: as := by
        cases names' with
        | nil => cases hnames
        | cons a as => exact ⟨a, as, rfl⟩
      exact ⟨_, .moreParams hkind (Token.kind_of_word hcomma) hs,
        by rw [List.map_cons, hnames, htext]; rfl⟩

/-- Some statement that is the same up to its nodes is spelled so. -/
def Stmt.SpelledBy (n : Nat) (ts : List Token) (s : Stmt) : Prop :=
  ∃ s' n', (s.declares = false → Spells n ts (.stmt s.endsOpen s') n') ∧
    Spells n ts (.decl s') n' ∧ s'.bare = s.bare

/-- Tokens that spell a statement with other nodes spell the statement. -/
theorem Stmt.SpelledBy.ofStmt {n n' : Nat} {ts : List Token} {s s' : Stmt}
    (h : Spells n ts (.stmt s.endsOpen s') n') (hbare : s'.bare = s.bare) :
    s.SpelledBy n ts :=
  ⟨s', n', fun _ => h, .statement h, hbare⟩

/-- Names of the same texts are the same up to their nodes. -/
theorem Name.map_blank_of_text {as bs : List Name} {i j : Nat}
    (h : as.map Name.text = bs.map Name.text) :
    as.map (·.mapNode (fun _ => .blank) i)
      = bs.map (·.mapNode (fun _ => .blank) j) := by
  have hfactor (k : Nat) (names : List Name) :
      names.map (·.mapNode (fun _ => .blank) k)
        = (names.map Name.text).map (⟨·, Position.start⟩) := by
    rw [List.map_map]
    rfl
  rw [hfactor, hfactor, h]

/-- The words of a variable declaration spell it. -/
theorem Stmt.spelledBy_varDecl {node : Node} {name : Name}
    {init : Option Expr} (hw : Expr.OptionWellFormed init)
    {ts : List Token} (n : Nat)
    (h : ts.map Token.word = (Stmt.varDecl node name init).render) :
    (Stmt.varDecl node name init).SpelledBy n ts := by
  obtain ⟨word, ts', rfl, hword, h'⟩ := List.map_eq_cons_iff.1 h
  obtain ⟨t, rest, rfl, ht, h''⟩ := List.map_eq_cons_iff.1 h'
  obtain ⟨ts, last, rfl, hinit, hlast⟩ := List.map_eq_append_iff.1 h''
  obtain ⟨ending, rfl, hend⟩ := List.map_eq_singleton_iff.1 hlast
  obtain ⟨hkind, htext⟩ := Token.identifier_of_word ht
  cases init with
  | none =>
    obtain rfl := List.map_eq_nil_iff.1 hinit
    refine ⟨_, _, by rintro ⟨⟩, .variable (.varDecl (Token.kind_of_word hword)
      hkind (Token.kind_of_word hend)), ?_⟩
    simp [Stmt.mapNodes, Name.mapNode, htext]
  | some e =>
    obtain ⟨sign, ts, rfl, hsign, hvalue⟩ := List.map_eq_cons_iff.1 hinit
    obtain ⟨e', n', hs, hbare⟩ := (e.spelledBy (hw e rfl) n hvalue).loosen
      .assignment (Nat.zero_le _)
    refine ⟨_, _, by rintro ⟨⟩, .variable (.varInit (Token.kind_of_word hword)
      hkind (Token.kind_of_word hsign) hs (Token.kind_of_word hend)), ?_⟩
    simp [Stmt.mapNodes, Name.mapNode, htext, hbare]

mutual

/-- The words of a well formed statement spell it. -/
theorem Stmt.spelledBy : (s : Stmt) → s.WellFormed → s.ElseNearest →
    ∀ {ts : List Token} (n : Nat), ts.map Token.word = s.render →
      s.SpelledBy n ts
  | .expr _ e, hw, _, ts, n, h => by
      obtain ⟨ts, last, rfl, hts, hlast⟩ := List.map_eq_append_iff.1 h
      obtain ⟨ending, rfl, hend⟩ := List.map_eq_singleton_iff.1 hlast
      obtain ⟨e', n', hs, hbare⟩ := (e.spelledBy hw n hts).loosen
        .assignment (Nat.zero_le _)
      obtain ⟨first, rest, rfl, -⟩ := hs.begins rfl
      exact .ofStmt (.expression (.exprStmt hs (Token.kind_of_word hend)))
        (by simp [Stmt.mapNodes, hbare])
  | .print _ e, hw, _, ts, n, h => by
      obtain ⟨word, ts', rfl, hword, h'⟩ := List.map_eq_cons_iff.1 h
      obtain ⟨ts, last, rfl, hts, hlast⟩ := List.map_eq_append_iff.1 h'
      obtain ⟨ending, rfl, hend⟩ := List.map_eq_singleton_iff.1 hlast
      obtain ⟨e', n', hs, hbare⟩ := (e.spelledBy hw n hts).loosen
        .assignment (Nat.zero_le _)
      exact .ofStmt (.print (Token.kind_of_word hword) hs
        (Token.kind_of_word hend)) (by simp [Stmt.mapNodes, hbare])
  | .varDecl _ _ _, hw, _, ts, n, h => Stmt.spelledBy_varDecl hw n h
  | .funDecl node name _ params _ body, hw, hn, ts, n, h => by
      obtain ⟨word, ts₁, rfl, hword, h₁⟩ := List.map_eq_cons_iff.1 h
      obtain ⟨t, ts₂, rfl, ht, h₂⟩ := List.map_eq_cons_iff.1 h₁
      obtain ⟨opening, ts₃, rfl, hopen, h₃⟩ := List.map_eq_cons_iff.1 h₂
      obtain ⟨ts, ts₄, rfl, hparams, h₄⟩ := List.map_eq_append_iff.1 h₃
      obtain ⟨closing, ts₅, rfl, hclose, h₅⟩ := List.map_eq_cons_iff.1 h₄
      obtain ⟨left, ts₆, rfl, hleft, h₆⟩ := List.map_eq_cons_iff.1 h₅
      obtain ⟨ts', last, rfl, hbody, hlast⟩ := List.map_eq_append_iff.1 h₆
      obtain ⟨right, rfl, hright⟩ := List.map_eq_singleton_iff.1 hlast
      obtain ⟨hkind, htext⟩ := Token.identifier_of_word ht
      obtain ⟨params', hs, hnames⟩ := Name.spelledBy_params params n hparams
      obtain ⟨body', n', hs', hbare⟩ := spelledBy_all body hw hn n hbody
      refine ⟨_, _, nofun, .function (Token.kind_of_word hword) hkind
        (Token.kind_of_word hopen) hs (Token.kind_of_word hclose)
        (.braced (Token.kind_of_word hleft) hs'
          (Token.kind_of_word hright)), ?_⟩
      have hparams' := Name.map_blank_of_text (i := n' + 1 + 1)
        (j := node.id) hnames
      simp only [Stmt.mapNodes, hbare, hparams']
      simp [Name.mapNode, htext]
  | .block _ body, hw, hn, ts, n, h => by
      obtain ⟨left, ts', rfl, hleft, h'⟩ := List.map_eq_cons_iff.1 h
      obtain ⟨ts, last, rfl, hbody, hlast⟩ := List.map_eq_append_iff.1 h'
      obtain ⟨right, rfl, hright⟩ := List.map_eq_singleton_iff.1 hlast
      obtain ⟨body', n', hs, hbare⟩ := spelledBy_all body hw hn n hbody
      exact .ofStmt (.block (.braced (Token.kind_of_word hleft) hs
        (Token.kind_of_word hright))) (by simp [Stmt.mapNodes, hbare])
  | .cond _ test yes none, hw, hn, ts, n, h => by
      obtain ⟨word, ts₁, rfl, hword, h₁⟩ := List.map_eq_cons_iff.1 h
      obtain ⟨opening, ts₂, rfl, hopen, h₂⟩ := List.map_eq_cons_iff.1 h₁
      obtain ⟨ts, ts₃, rfl, htest, h₃⟩ := List.map_eq_append_iff.1 h₂
      obtain ⟨closing, ts', rfl, hclose, hyes⟩ := List.map_eq_cons_iff.1 h₃
      obtain ⟨test', n₁, hs, hbare⟩ := (test.spelledBy hw.1 n htest).loosen
        .assignment (Nat.zero_le _)
      obtain ⟨yes', n₂, hs', -, hbare'⟩ := yes.spelledBy hw.2.2 hn n₁ hyes
      exact .ofStmt (.cond (Token.kind_of_word hword)
        (Token.kind_of_word hopen) hs (Token.kind_of_word hclose)
        (hs' hw.2.1)) (by simp [Stmt.mapNodes, hbare, hbare'])
  | .cond _ test yes (some no), hw, hn, ts, n, h => by
      obtain ⟨word, ts₁, rfl, hword, h₁⟩ := List.map_eq_cons_iff.1 h
      obtain ⟨opening, ts₂, rfl, hopen, h₂⟩ := List.map_eq_cons_iff.1 h₁
      obtain ⟨ts, ts₃, rfl, htest, h₃⟩ := List.map_eq_append_iff.1 h₂
      obtain ⟨closing, ts₄, rfl, hclose, h₄⟩ := List.map_eq_cons_iff.1 h₃
      obtain ⟨ts', ts₅, rfl, hyes, h₅⟩ := List.map_eq_append_iff.1 h₄
      obtain ⟨other, ts'', rfl, hother, hno⟩ := List.map_eq_cons_iff.1 h₅
      obtain ⟨test', n₁, hs, hbare⟩ := (test.spelledBy hw.1 n htest).loosen
        .assignment (Nat.zero_le _)
      obtain ⟨yes', n₂, hs', -, hbare'⟩ :=
        yes.spelledBy hw.2.1.2 hn.1.2 n₁ hyes
      obtain ⟨no', n₃, hs'', -, hbare''⟩ :=
        no.spelledBy hw.2.2.2 hn.2 n₂ hno
      -- The branch in front of the other one is not left open.
      have hs' := hs' hw.2.1.1
      rw [hn.1.1] at hs'
      exact .ofStmt (.condElse (Token.kind_of_word hword)
        (Token.kind_of_word hopen) hs (Token.kind_of_word hclose) hs'
        (Token.kind_of_word hother) (hs'' hw.2.2.1))
        (by simp [Stmt.mapNodes, hbare, hbare', hbare''])
  | .loop _ test body, hw, hn, ts, n, h => by
      obtain ⟨word, ts₁, rfl, hword, h₁⟩ := List.map_eq_cons_iff.1 h
      obtain ⟨opening, ts₂, rfl, hopen, h₂⟩ := List.map_eq_cons_iff.1 h₁
      obtain ⟨ts, ts₃, rfl, htest, h₃⟩ := List.map_eq_append_iff.1 h₂
      obtain ⟨closing, ts', rfl, hclose, hbody⟩ := List.map_eq_cons_iff.1 h₃
      obtain ⟨test', n₁, hs, hbare⟩ := (test.spelledBy hw.1 n htest).loosen
        .assignment (Nat.zero_le _)
      obtain ⟨body', n₂, hs', -, hbare'⟩ :=
        body.spelledBy hw.2.2 hn n₁ hbody
      exact .ofStmt (.loop (Token.kind_of_word hword)
        (Token.kind_of_word hopen) hs (Token.kind_of_word hclose)
        (hs' hw.2.1)) (by simp [Stmt.mapNodes, hbare, hbare'])
  | .ret _ value, hw, _, ts, n, h => by
      obtain ⟨word, ts', rfl, hword, h'⟩ := List.map_eq_cons_iff.1 h
      obtain ⟨ts, last, rfl, hvalue, hlast⟩ := List.map_eq_append_iff.1 h'
      obtain ⟨ending, rfl, hend⟩ := List.map_eq_singleton_iff.1 hlast
      obtain ⟨value', n', hs, hbare⟩ := Expr.spelledBy_option hw n hvalue
      exact .ofStmt (.ret (Token.kind_of_word hword) hs
        (Token.kind_of_word hend)) (by simpa [Stmt.mapNodes] using hbare)

/-- The words of well formed statements spell them. -/
theorem Stmt.spelledBy_all : (ss : List Stmt) → Stmt.AllWellFormed ss →
    Stmt.AllElseNearest ss → ∀ {ts : List Token} (n : Nat),
      ts.map Token.word = Stmt.renderAll ss →
        ∃ ss' n', Spells n ts (.decls ss') n' ∧
          Stmt.bareAll ss' = Stmt.bareAll ss
  | [], _, _, ts, n, h => by
      obtain rfl := List.map_eq_nil_iff.1 h
      exact ⟨[], n, .nil, rfl⟩
  | s :: ss, hw, hn, ts, n, h => by
      obtain ⟨ts₁, ts₂, rfl, hfirst, hothers⟩ := List.map_eq_append_iff.1 h
      obtain ⟨s', n₁, -, hs, hbare⟩ := s.spelledBy hw.1 hn.1 n hfirst
      obtain ⟨ss', n₂, hs', hbare'⟩ := spelledBy_all ss hw.2 hn.2 n₁ hothers
      exact ⟨_, _, .cons hs hs', List.cons_eq_cons.2 ⟨hbare, hbare'⟩⟩

end

-- ================================================== tokens for all trees

/-- Some tokens say these words. -/
def Sayable (words : List Word) : Prop :=
  ∃ ts : List Token, ts.map Token.word = words

/-- No words are sayable. -/
theorem Sayable.nil : Sayable [] := ⟨[], rfl⟩

/-- Sayable words behind sayable words are sayable. -/
theorem Sayable.append {as bs : List Word} (ha : Sayable as)
    (hb : Sayable bs) : Sayable (as ++ bs) := by
  obtain ⟨ts, rfl⟩ := ha
  obtain ⟨ts', rfl⟩ := hb
  exact ⟨ts ++ ts', List.map_append⟩

/-- A word whose spelling is fixed by its kind can be put in front of sayable
words. -/
theorem Sayable.kind {kind : TokenKind} {words : List Word}
    (h : Sayable words) (hkind : kind.varies = false) :
    Sayable (kind.word :: words) := by
  obtain ⟨ts, rfl⟩ := h
  exact ⟨⟨kind, "", .start⟩ :: ts,
    List.cons_eq_cons.2 ⟨Token.word_of_kind rfl hkind, rfl⟩⟩

/-- So can a name, whatever its letters: a token may have any text. -/
theorem Sayable.name {words : List Word} (h : Sayable words)
    (name : String) : Sayable ((.identifier, name) :: words) := by
  obtain ⟨ts, rfl⟩ := h
  exact ⟨⟨.identifier, name, .start⟩ :: ts, rfl⟩

/-- A word whose spelling is fixed by its kind is sayable alone. -/
theorem Sayable.single {kind : TokenKind} (hkind : kind.varies = false) :
    Sayable [kind.word] :=
  Sayable.nil.kind hkind

/-- A literal is said by the token that it is read from: each has a kind, and
a text for that. -/
theorem Literal.sayable (value : Literal) :
    Sayable [(value.kind, value.text)] := by
  cases value with
  | number spelling => exact ⟨[⟨.number, spelling, .start⟩], rfl⟩
  | string contents =>
    refine ⟨[⟨.string, "\"" ++ contents ++ "\"", .start⟩], ?_⟩
    simp [Token.word, Token.text, Token.contents, Literal.kind,
      Literal.text, String.toList_append]
  | bool b => cases b <;> exact Sayable.single rfl
  | nil => exact Sayable.single rfl

mutual

/-- There are tokens for the words of every expression. -/
theorem Expr.sayable : (e : Expr) → Sayable e.render
  | .literal _ value => value.sayable
  | .var _ name => Sayable.nil.name name
  | .assign _ name value => (value.sayable.kind rfl).name name
  | .group _ inner => (inner.sayable.append (.single rfl)).kind rfl
  | .unary _ op operand => operand.sayable.kind op.varies_kind
  | .binary _ op left right =>
      left.sayable.append
        (right.sayable.kind (Connective.varies_kind (.binary op)))
  | .logical _ op left right =>
      left.sayable.append
        (right.sayable.kind (Connective.varies_kind (.logical op)))
  | .call _ _ callee args =>
      callee.sayable.append
        (((sayable_args args).append (.single rfl)).kind rfl)

/-- The same for arguments with commas between them. -/
theorem Expr.sayable_args : (es : List Expr) →
    Sayable (Expr.renderArgs es)
  | [] => .nil
  | [e] => e.sayable
  | e :: e₂ :: es => e.sayable.append ((sayable_args (e₂ :: es)).kind rfl)

end

/-- The same for an expression that may be missing. -/
theorem Expr.sayable_option : (e : Option Expr) →
    Sayable (Expr.renderOption e)
  | none => .nil
  | some e => e.sayable

/-- The same for an initializer with its sign. -/
theorem Expr.sayable_init : (e : Option Expr) → Sayable (Expr.renderInit e)
  | none => .nil
  | some e => e.sayable.kind rfl

/-- The same for parameters with commas between them. -/
theorem Name.sayable_all : (names : List Name) →
    Sayable (Name.renderAll names)
  | [] => .nil
  | [name] => Sayable.nil.name name.text
  | name :: name₂ :: names =>
      ((sayable_all (name₂ :: names)).kind rfl).name name.text

mutual

/-- There are tokens for the words of every statement. -/
theorem Stmt.sayable : (s : Stmt) → Sayable s.render
  | .expr _ value => value.sayable.append (.single rfl)
  | .print _ value => (value.sayable.append (.single rfl)).kind rfl
  | .varDecl _ name init =>
      (((Expr.sayable_init init).append (.single rfl)).name name.text).kind rfl
  | .funDecl _ name _ params _ body =>
      ((((Name.sayable_all params).append
        ((((sayable_all body).append (.single rfl)).kind rfl).kind rfl)).kind
          rfl).name name.text).kind rfl
  | .block _ body => ((sayable_all body).append (.single rfl)).kind rfl
  | .cond _ test yes none =>
      ((test.sayable.append (yes.sayable.kind rfl)).kind rfl).kind rfl
  | .cond _ test yes (some no) =>
      ((test.sayable.append ((yes.sayable.append
        (no.sayable.kind rfl)).kind rfl)).kind rfl).kind rfl
  | .loop _ test body =>
      ((test.sayable.append (body.sayable.kind rfl)).kind rfl).kind rfl
  | .ret _ value =>
      ((Expr.sayable_option value).append (.single rfl)).kind rfl

/-- Every rendering is said by some tokens. -/
theorem Stmt.sayable_all : (ss : List Stmt) → Sayable (Stmt.renderAll ss)
  | [] => .nil
  | s :: ss => s.sayable.append (sayable_all ss)

end

end Lox
