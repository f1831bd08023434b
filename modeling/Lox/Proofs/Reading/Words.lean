/-
From tokens to words and shapes. What tokens without a `for` spell is
written back to their words, so reading forgets nothing but the places;
and what they spell has the shape that the levels ask for, whether there
is a `for` in them or not.
-/
import Lox.Proofs.Reading.Grammar
import Lox.Proofs.Tree.Nodes
import Lox.Proofs.Tree.Render

namespace Lox

-- ======================================================== words of tokens

/-- Whether tokens of this kind are spelled in more than one way. -/
def TokenKind.varies : TokenKind → Bool
  | identifier | string | number => true
  | _ => false

/-- A token of a kind that is always spelled alike says its kind. -/
theorem Token.word_of_kind {t : Token} {kind : TokenKind}
    (h : t.kind = kind) (hkind : kind.varies = false) :
    t.word = kind.word := by
  subst h
  unfold Token.word Token.text TokenKind.word
  split <;> simp_all [TokenKind.varies]

theorem Token.word_identifier {t : Token} (h : t.kind = .identifier) :
    t.word = (.identifier, t.lexeme) := by
  simp [Token.word, Token.text, h]

/-- A word of this kind is said by a token of it. -/
theorem Token.kind_of_word {t : Token} {kind : TokenKind}
    (h : t.word = kind.word) : t.kind = kind :=
  congrArg Prod.fst h

/-- A name is said by a token that spells it. -/
theorem Token.identifier_of_word {t : Token} {name : String}
    (h : t.word = (.identifier, name)) :
    t.kind = .identifier ∧ t.lexeme = name := by
  have hkind : t.kind = .identifier := congrArg Prod.fst h
  rw [Token.word_identifier hkind] at h
  exact ⟨hkind, congrArg Prod.snd h⟩

/-- A literal is said by the tokens that spell it. -/
theorem Literal.ofToken?_eq_some {t : Token} {value : Literal} :
    Literal.ofToken? t = some value ↔ t.word = (value.kind, value.text) := by
  constructor
  · intro h
    unfold Literal.ofToken? at h
    split at h <;> cases h <;>
      simp_all [Token.word, Token.text, Literal.kind, Literal.text,
        TokenKind.spelling]
  · intro h
    have hkind : t.kind = value.kind := congrArg Prod.fst h
    have htext : t.text = value.text := congrArg Prod.snd h
    cases value with
    | bool b =>
      cases b <;> simp [Literal.ofToken?, hkind, Literal.kind]
    | _ =>
      simp_all [Literal.ofToken?, Token.text, Literal.kind, Literal.text]

/-- The operators before an operand are told by their kinds. -/
theorem UnaryOp.ofKind?_eq_some {kind : TokenKind} {op : UnaryOp} :
    UnaryOp.ofKind? kind = some op ↔ kind = op.kind := by
  constructor
  · intro h
    unfold UnaryOp.ofKind? at h
    split at h <;> cases h <;> rfl
  · rintro rfl
    cases op <;> rfl

theorem UnaryOp.varies_kind (op : UnaryOp) : op.kind.varies = false := by
  cases op <;> rfl

-- =========================================================== connectives

/-- The token that spells a connective. -/
def Connective.kind : Connective → TokenKind
  | logical op => op.kind
  | binary op => op.kind

/-- The level of a connective. -/
def Connective.level : Connective → Level
  | logical op => op.level
  | binary op => op.level

theorem Level.connective?_eq_some {ℓ : Level} {kind : TokenKind}
    {op : Connective} :
    ℓ.connective? kind = some op ↔ ℓ = op.level ∧ kind = op.kind := by
  constructor
  · intro h
    unfold Level.connective? at h
    split at h <;> cases h <;> exact ⟨rfl, rfl⟩
  · rintro ⟨rfl, rfl⟩
    rcases op with op | op <;> cases op <;> rfl

theorem Connective.varies_kind (op : Connective) :
    op.kind.varies = false := by
  rcases op with op | op <;> cases op <;> rfl

theorem Connective.render_join (op : Connective) (node : Node)
    (left right : Expr) :
    (op.join node left right).render
      = left.render ++ op.kind.word :: right.render := by
  cases op <;> rfl

theorem Connective.tightness_join (op : Connective) (node : Node)
    (left right : Expr) :
    (op.join node left right).tightness = op.level.tightness := by
  cases op <;> rfl

theorem Connective.wellFormed_join (op : Connective) (node : Node)
    (left right : Expr) :
    (op.join node left right).WellFormed
      ↔ (op.level.tightness ≤ left.tightness ∧ left.WellFormed)
        ∧ op.level.tightness < right.tightness ∧ right.WellFormed := by
  cases op <;> simp [join, Expr.WellFormed, level]

-- ================================================================= ranks

/-- How tight an expression of a rank binds at least. -/
def Rank.tightness : Rank → Nat
  | assignment => 0
  | level ℓ => ℓ.tightness
  | unary => unaryTightness
  | call => callTightness
  | primary => 9

theorem Rank.tightness_tighter? {rank tighter : Rank}
    (h : rank.tighter? = some tighter) :
    tighter.tightness = rank.tightness + 1 := by
  cases rank with
  | level ℓ => cases ℓ <;> cases h <;> rfl
  | primary => cases h
  | _ => cases h; rfl

-- ================================================================= shape

/-- The trees of a phrase have the shape that its place asks for. -/
def Phrase.Shaped : Phrase → Prop
  | expr rank e => rank.tightness ≤ e.tightness ∧ e.WellFormed
  | args es => Expr.AllWellFormed es
  | params _ => True
  | maybe e => Expr.OptionWellFormed e
  | varDecl s | decl s => s.WellFormed
  | exprStmt s | stmt _ s => s.declares = false ∧ s.WellFormed
  | clause first => ∀ s ∈ first, s.WellFormed
  | test e => e.WellFormed
  | braced _ body => Stmt.AllWellFormed body
  | decls ss => Stmt.AllWellFormed ss

theorem shaped_forTree {pos : Position} {init : Option Stmt} {test : Expr}
    {step : Option Expr} {body : Stmt} {n : Nat} {isOpen : Bool}
    (hinit : ∀ s ∈ init, s.WellFormed) (htest : test.WellFormed)
    (hstep : Expr.OptionWellFormed step) (hdecl : body.declares = false)
    (hbody : body.WellFormed) :
    (Phrase.stmt isOpen (forTree pos init test step body n).1).Shaped := by
  cases init <;> cases step <;>
    simp_all [forTree, forBodyTree, forLoopTree, Phrase.Shaped,
      Stmt.declares, Stmt.WellFormed, Stmt.AllWellFormed,
      Expr.OptionWellFormed]

/-- What tokens spell has the shape that its place asks for. -/
theorem Spells.shaped {n n' : Nat} {ts : List Token} {p : Phrase}
    (h : Spells n ts p n') : p.Shaped := by
  induction h with
  | literal | var => exact ⟨Nat.le_refl _, trivial⟩
  | group _ _ _ ih => exact ⟨Nat.le_refl _, ih.2⟩
  | call _ _ _ _ ih₁ ih₂ => exact ⟨Nat.le_refl _, ih₁, ih₂⟩
  | unary _ _ ih => exact ⟨Nat.le_refl _, ih⟩
  | join _ hop hrank _ ih₁ ih₂ =>
      obtain ⟨rfl, -⟩ := Level.connective?_eq_some.1 hop
      have htight := Rank.tightness_tighter? hrank
      have hright := ih₂.1
      refine ⟨Nat.le_of_eq (Connective.tightness_join ..).symm,
        (Connective.wellFormed_join ..).2 ⟨ih₁, ?_, ih₂.2⟩⟩
      show (Rank.level _).tightness < _
      omega
  | lift hrank _ ih =>
      have htight := Rank.tightness_tighter? hrank
      have hle := ih.1
      exact ⟨by omega, ih.2⟩
  | assign _ _ _ _ ih => exact ⟨Nat.le_refl _, ih.2⟩
  | noArgs | nil | noParams | oneParam | moreParams => trivial
  | oneArg _ ih => exact ⟨ih.2, trivial⟩
  | moreArgs _ _ _ ih₁ ih₂ => exact ⟨ih₁.2, ih₂⟩
  | absent | noClause => rintro _ ⟨⟩
  | present _ ih => rintro e ⟨⟩; exact ih.2
  | varDecl => rintro e ⟨⟩
  | varInit _ _ _ _ _ ih => rintro e ⟨⟩; exact ih.2
  | exprStmt _ _ ih | print _ _ _ ih => exact ⟨rfl, ih.2⟩
  | varClause _ ih => rintro s ⟨⟩; exact ih
  | exprClause _ ih => rintro s ⟨⟩; exact ih.2
  | noTest => trivial
  | someTest _ _ ih => exact ih.2
  | braced _ _ _ ih | expression _ ih | «variable» _ ih => exact ih
  | ret _ _ _ ih | block _ ih => exact ⟨rfl, ih⟩
  | cond _ _ _ _ _ ih₁ ih₂ => exact ⟨rfl, ih₁.2, ih₂⟩
  | condElse _ _ _ _ _ _ _ ih₁ ih₂ ih₃ => exact ⟨rfl, ih₁.2, ih₂, ih₃⟩
  | loop _ _ _ _ _ ih₁ ih₂ => exact ⟨rfl, ih₁.2, ih₂⟩
  | forLoop _ _ _ _ _ _ _ ih₁ ih₂ ih₃ ih₄ =>
      exact shaped_forTree ih₁ ih₂ ih₃ ih₄.1 ih₄.2
  | function _ _ _ _ _ _ _ ih => exact ih
  | statement _ ih => exact ih.2
  | cons _ _ ih₁ ih₂ => exact ⟨ih₁, ih₂⟩

-- ======================================================= words and trees

/-- Whether a phrase stands only in a `for`. -/
def Phrase.ofFor : Phrase → Bool
  | clause _ | test _ => true
  | _ => false

/-- The words of the trees of a phrase. -/
def Phrase.words : Phrase → List Word
  | expr _ e => e.render
  | args es => Expr.renderArgs es
  | params names => Name.renderAll names
  | maybe e => Expr.renderOption e
  | varDecl s | exprStmt s | stmt _ s | decl s => s.render
  | clause _ | test _ => []
  | braced _ body =>
      TokenKind.leftBrace.word
        :: (Stmt.renderAll body ++ [TokenKind.rightBrace.word])
  | decls ss => Stmt.renderAll ss

/-- Tokens without a `for` are the words of what they spell. -/
theorem Spells.words {n n' : Nat} {ts : List Token} {p : Phrase}
    (h : Spells n ts p n') (hfor : ∀ t ∈ ts, t.kind ≠ .kwFor)
    (hp : p.ofFor = false) : ts.map Token.word = p.words := by
  induction h with
  | literal hvalue =>
      exact congrArg (fun w => [w]) (Literal.ofToken?_eq_some.1 hvalue)
  | var hkind | oneParam hkind =>
      exact congrArg (fun w => [w]) (Token.word_identifier hkind)
  | group hopen _ hclose ih =>
      simp_all [Phrase.words, Phrase.ofFor, Expr.render,
        Token.word_of_kind hopen rfl, Token.word_of_kind hclose rfl]
  | call _ hopen _ hclose ih₁ ih₂ =>
      simp_all [Phrase.words, Phrase.ofFor, Expr.render,
        Token.word_of_kind hopen rfl, Token.word_of_kind hclose rfl]
  | unary hop _ ih =>
      have hsign := Token.word_of_kind (UnaryOp.ofKind?_eq_some.1 hop)
        (UnaryOp.varies_kind _)
      simp_all [Phrase.words, Phrase.ofFor, Expr.render]
  | join _ hop _ _ ih₁ ih₂ =>
      have hsign := Token.word_of_kind (Level.connective?_eq_some.1 hop).2
        (Connective.varies_kind _)
      simp_all [Phrase.words, Phrase.ofFor, Connective.render_join]
  | lift _ _ ih | oneArg _ ih | present _ ih | expression _ ih
  | «variable» _ ih | statement _ ih => exact ih hfor rfl
  | assign _ hsign _ ih₁ ih₂ =>
      simp_all [Phrase.words, Phrase.ofFor, Expr.render,
        Token.word_of_kind hsign rfl]
  | noArgs | noParams | absent | nil => rfl
  | moreArgs _ hcomma _ ih₁ ih₂ =>
      simp_all [Phrase.words, Phrase.ofFor, Expr.renderArgs,
        Token.word_of_kind hcomma rfl]
  | moreParams hkind hcomma _ ih =>
      simp_all [Phrase.words, Phrase.ofFor, Name.renderAll,
        Token.word_identifier hkind, Token.word_of_kind hcomma rfl]
  | varDecl hword hname hend =>
      simp_all [Phrase.words, Stmt.render, Expr.renderInit,
        Token.word_of_kind hword rfl, Token.word_identifier hname,
        Token.word_of_kind hend rfl]
  | varInit hword hname hsign _ hend ih =>
      simp_all [Phrase.words, Phrase.ofFor, Stmt.render, Expr.renderInit,
        Token.word_of_kind hword rfl, Token.word_identifier hname,
        Token.word_of_kind hsign rfl, Token.word_of_kind hend rfl]
  | exprStmt _ hend ih =>
      have hwords := ih (fun t ht => hfor t
        (by rcases List.mem_cons.1 ht with h | h <;> simp [h])) rfl
      simp only [Phrase.words] at hwords
      simp [Phrase.words, Stmt.render, Token.word_of_kind hend rfl,
        ← hwords]
  | noClause | varClause | exprClause | noTest | someTest => cases hp
  | braced hopen _ hclose ih =>
      simp_all [Phrase.words, Phrase.ofFor, Token.word_of_kind hopen rfl,
        Token.word_of_kind hclose rfl]
  | print hword _ hend ih | ret hword _ hend ih =>
      simp_all [Phrase.words, Phrase.ofFor, Stmt.render,
        Token.word_of_kind hword rfl, Token.word_of_kind hend rfl]
  | block _ ih =>
      simp_all [Phrase.words, Phrase.ofFor, Stmt.render]
  | cond hword hopen _ hclose _ ih₁ ih₂
  | loop hword hopen _ hclose _ ih₁ ih₂ =>
      simp_all [Phrase.words, Phrase.ofFor, Stmt.render,
        Token.word_of_kind hword rfl, Token.word_of_kind hopen rfl,
        Token.word_of_kind hclose rfl]
  | condElse hword hopen _ hclose _ hother _ ih₁ ih₂ ih₃ =>
      simp_all [Phrase.words, Phrase.ofFor, Stmt.render,
        Token.word_of_kind hword rfl, Token.word_of_kind hopen rfl,
        Token.word_of_kind hclose rfl, Token.word_of_kind hother rfl]
  | forLoop hword => exact absurd hword (hfor _ (by simp))
  | function hword hname hopen _ hclose _ ih₁ ih₂ =>
      simp_all [Phrase.words, Phrase.ofFor, Stmt.render,
        Token.word_of_kind hword rfl, Token.word_identifier hname,
        Token.word_of_kind hopen rfl, Token.word_of_kind hclose rfl]
  | cons _ _ ih₁ ih₂ =>
      simp_all [Phrase.words, Phrase.ofFor, Stmt.renderAll]

/-- Every `else` in the trees of a phrase belongs to the nearest `if`,
and an open statement is marked as such. -/
def Phrase.Nearest : Phrase → Prop
  | varDecl s | exprStmt s | decl s => s.ElseNearest
  | stmt isOpen s => isOpen = s.endsOpen ∧ s.ElseNearest
  | braced _ body => Stmt.AllElseNearest body
  | decls ss => Stmt.AllElseNearest ss
  | _ => True

/-- In what tokens without a `for` spell, every `else` belongs to the
nearest `if`. -/
theorem Spells.nearest {n n' : Nat} {ts : List Token} {p : Phrase}
    (h : Spells n ts p n') (hfor : ∀ t ∈ ts, t.kind ≠ .kwFor) :
    p.Nearest := by
  induction h with
  | varDecl | varInit | exprStmt | nil => trivial
  | expression hs ih =>
      cases hs with
      | exprStmt => exact ⟨rfl, trivial⟩
  | print | ret => exact ⟨rfl, trivial⟩
  | braced _ _ _ ih => exact ih (by simp_all)
  | block _ ih => exact ⟨rfl, ih hfor⟩
  | cond _ _ _ _ _ _ ih => exact ⟨rfl, (ih (by simp_all)).2⟩
  | condElse _ _ _ _ _ _ _ _ ih₂ ih₃ =>
      obtain ⟨hyes, hyesNearest⟩ := ih₂ (by simp_all)
      obtain ⟨hno, hnoNearest⟩ := ih₃ (by simp_all)
      exact ⟨hno, ⟨hyes.symm, hyesNearest⟩, hnoNearest⟩
  | loop _ _ _ _ _ _ ih => exact ih (by simp_all)
  | forLoop hword => exact absurd hword (hfor _ (by simp))
  | «variable» _ ih => exact ih hfor
  | function _ _ _ _ _ _ _ ih => exact ih (by simp_all)
  | statement _ ih => exact (ih hfor).2
  | cons _ _ ih₁ ih₂ => exact ⟨ih₁ (by simp_all), ih₂ (by simp_all)⟩
  | _ => trivial

end Lox
