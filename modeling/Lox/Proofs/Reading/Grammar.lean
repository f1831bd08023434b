/-
The grammar, as a relation between tokens and trees. `Spells n ts p n'`
says that the tokens `ts` spell the phrase `p`, its nodes numbered from
`n` on in the order in which they are complete, and that `n'` is the
number left for what follows. There is one constructor for each rule,
and no reader, no budget and no look at the token behind a phrase in it.

# Two places where the tokens alone do not decide

- A level of operators groups to the left: `Spells.join` takes a left
  operand of its own level and a right one of the next tighter.
- An `else` belongs to the nearest `if`. A statement phrase therefore
  says whether it is open, that is, whether an `else` behind it would be
  a part of it, and only a phrase that is not open stands before an
  `else`. This is said of the tokens and not of the tree, since the
  blocks that a `for` stands for hide the open end of its body.
-/
import Lox.Tree.ReadStmt

namespace Lox

-- =============================================================== phrases

/-- The ranks of expressions, the loosest first. -/
inductive Rank where
  | assignment
  | level (level : Level)
  | unary
  | call
  | primary
deriving DecidableEq

/-- The next tighter rank. -/
def Rank.tighter? : Rank → Option Rank
  | assignment => some (level .or)
  | level ℓ => some ((ℓ.tighter?.map level).getD unary)
  | unary => some call
  | call => some primary
  | primary => none

/-- What some tokens can spell. -/
inductive Phrase where
  | expr (rank : Rank) (e : Expr)
  /-- Arguments with commas between them, or none. -/
  | args (es : List Expr)
  /-- Parameters with commas between them, or none. -/
  | params (names : List Name)
  /-- An expression that may be missing. -/
  | maybe (e : Option Expr)
  | varDecl (s : Stmt)
  | exprStmt (s : Stmt)
  /-- The first clause of a `for`, with its semicolon. -/
  | clause (first : Option Stmt)
  /-- The second clause of a `for`, with its semicolon. -/
  | test (e : Expr)
  /-- Declarations in braces, and the node of the braces. -/
  | braced (node : Node) (body : List Stmt)
  /-- A statement that declares nothing. -/
  | stmt (isOpen : Bool) (s : Stmt)
  | decl (s : Stmt)
  | decls (ss : List Stmt)

/-- The body of a `for` and, behind it, its third clause. -/
def forBodyTree (pos : Position) (step : Option Expr) (body : Stmt)
    (n : Nat) : Stmt × Nat :=
  match step with
  | none => (body, n)
  | some e => (.block ⟨n + 1, pos⟩ [body, .expr ⟨n, pos⟩ e], n + 2)

/-- The `while` of a `for`, behind its first clause. -/
def forLoopTree (pos : Position) (init : Option Stmt) (test : Expr)
    (body : Stmt) (n : Nat) : Stmt × Nat :=
  match init with
  | none => (.loop ⟨n, pos⟩ test body, n + 1)
  | some first =>
      (.block ⟨n + 1, pos⟩ [first, .loop ⟨n, pos⟩ test body], n + 2)

/-- The blocks and the `while` that a `for` stands for. -/
def forTree (pos : Position) (init : Option Stmt) (test : Expr)
    (step : Option Expr) (body : Stmt) (n : Nat) : Stmt × Nat :=
  let (body, n) := forBodyTree pos step body n
  forLoopTree pos init test body n

-- ================================================================= rules

/-- The tokens spell the phrase, numbered from the first number up to
the second. -/
inductive Spells : Nat → List Token → Phrase → Nat → Prop where
  | literal {n : Nat} {t : Token} {value : Literal} :
      Literal.ofToken? t = some value →
      Spells n [t] (.expr .primary (.literal ⟨n, t.pos⟩ value)) (n + 1)
  | var {n : Nat} {t : Token} :
      t.kind = .identifier →
      Spells n [t] (.expr .primary (.var ⟨n, t.pos⟩ t.lexeme)) (n + 1)
  | group {n n' : Nat} {ts : List Token} {opening closing : Token} {e : Expr} :
      opening.kind = .leftParen →
      Spells n ts (.expr .assignment e) n' →
      closing.kind = .rightParen →
      Spells n (opening :: (ts ++ [closing]))
        (.expr .primary (.group ⟨n', opening.pos⟩ e)) (n' + 1)
  | call {n n₁ n₂ : Nat} {ts ts' : List Token} {opening closing : Token}
      {callee : Expr} {args : List Expr} :
      Spells n ts (.expr .call callee) n₁ →
      opening.kind = .leftParen →
      Spells n₁ ts' (.args args) n₂ →
      closing.kind = .rightParen →
      Spells n (ts ++ opening :: (ts' ++ [closing]))
        (.expr .call (.call ⟨n₂ + 1, opening.pos⟩ n₂ callee args)) (n₂ + 2)
  | unary {n n' : Nat} {ts : List Token} {sign : Token} {op : UnaryOp}
      {e : Expr} :
      UnaryOp.ofKind? sign.kind = some op →
      Spells n ts (.expr .unary e) n' →
      Spells n (sign :: ts) (.expr .unary (.unary ⟨n', sign.pos⟩ op e))
        (n' + 1)
  | join {n n₁ n₂ : Nat} {ts ts' : List Token} {level : Level}
      {tighter : Rank} {sign : Token} {op : Connective} {left right : Expr} :
      Spells n ts (.expr (.level level) left) n₁ →
      level.connective? sign.kind = some op →
      (Rank.level level).tighter? = some tighter →
      Spells n₁ ts' (.expr tighter right) n₂ →
      Spells n (ts ++ sign :: ts')
        (.expr (.level level) (op.join ⟨n₂, sign.pos⟩ left right)) (n₂ + 1)
  | lift {n n' : Nat} {ts : List Token} {rank tighter : Rank} {e : Expr} :
      rank.tighter? = some tighter →
      Spells n ts (.expr tighter e) n' →
      Spells n ts (.expr rank e) n'
  | assign {n n₁ n₂ : Nat} {ts ts' : List Token} {first sign : Token}
      {target : Node} {name : String} {value : Expr} :
      Spells n (first :: ts) (.expr (.level .or) (.var target name)) n₁ →
      sign.kind = .equal →
      Spells n₁ ts' (.expr .assignment value) n₂ →
      Spells n (first :: (ts ++ sign :: ts'))
        (.expr .assignment (.assign ⟨n₂, first.pos⟩ name value)) (n₂ + 1)
  | noArgs {n : Nat} :
      Spells n [] (.args []) n
  | oneArg {n n' : Nat} {ts : List Token} {e : Expr} :
      Spells n ts (.expr .assignment e) n' →
      Spells n ts (.args [e]) n'
  | moreArgs {n n₁ n₂ : Nat} {ts ts' : List Token} {comma : Token}
      {e e' : Expr} {es : List Expr} :
      Spells n ts (.expr .assignment e) n₁ →
      comma.kind = .comma →
      Spells n₁ ts' (.args (e' :: es)) n₂ →
      Spells n (ts ++ comma :: ts') (.args (e :: e' :: es)) n₂
  | noParams {n : Nat} :
      Spells n [] (.params []) n
  | oneParam {n : Nat} {t : Token} :
      t.kind = .identifier →
      Spells n [t] (.params [⟨t.lexeme, t.pos⟩]) n
  | moreParams {n n' : Nat} {ts : List Token} {t comma : Token} {name : Name}
      {names : List Name} :
      t.kind = .identifier →
      comma.kind = .comma →
      Spells n ts (.params (name :: names)) n' →
      Spells n (t :: comma :: ts)
        (.params (⟨t.lexeme, t.pos⟩ :: name :: names)) n'
  | absent {n : Nat} :
      Spells n [] (.maybe none) n
  | present {n n' : Nat} {ts : List Token} {e : Expr} :
      Spells n ts (.expr .assignment e) n' →
      Spells n ts (.maybe (some e)) n'
  | varDecl {n : Nat} {word t ending : Token} :
      word.kind = .kwVar →
      t.kind = .identifier →
      ending.kind = .semicolon →
      Spells n [word, t, ending]
        (.varDecl (.varDecl ⟨n, word.pos⟩ ⟨t.lexeme, t.pos⟩ none)) (n + 1)
  | varInit {n n' : Nat} {ts : List Token} {word t sign ending : Token}
      {e : Expr} :
      word.kind = .kwVar →
      t.kind = .identifier →
      sign.kind = .equal →
      Spells n ts (.expr .assignment e) n' →
      ending.kind = .semicolon →
      Spells n (word :: t :: sign :: (ts ++ [ending]))
        (.varDecl (.varDecl ⟨n', word.pos⟩ ⟨t.lexeme, t.pos⟩ (some e)))
        (n' + 1)
  | exprStmt {n n' : Nat} {ts : List Token} {first ending : Token} {e : Expr} :
      Spells n (first :: ts) (.expr .assignment e) n' →
      ending.kind = .semicolon →
      Spells n (first :: (ts ++ [ending]))
        (.exprStmt (.expr ⟨n', first.pos⟩ e)) (n' + 1)
  | noClause {n : Nat} {ending : Token} :
      ending.kind = .semicolon →
      Spells n [ending] (.clause none) n
  | varClause {n n' : Nat} {ts : List Token} {s : Stmt} :
      Spells n ts (.varDecl s) n' →
      Spells n ts (.clause (some s)) n'
  | exprClause {n n' : Nat} {ts : List Token} {s : Stmt} :
      Spells n ts (.exprStmt s) n' →
      Spells n ts (.clause (some s)) n'
  | noTest {n : Nat} {ending : Token} :
      ending.kind = .semicolon →
      Spells n [ending] (.test (.literal ⟨n, ending.pos⟩ (.bool true)))
        (n + 1)
  | someTest {n n' : Nat} {ts : List Token} {ending : Token} {e : Expr} :
      Spells n ts (.expr .assignment e) n' →
      ending.kind = .semicolon →
      Spells n (ts ++ [ending]) (.test e) n'
  | braced {n n' : Nat} {ts : List Token} {opening closing : Token}
      {body : List Stmt} :
      opening.kind = .leftBrace →
      Spells n ts (.decls body) n' →
      closing.kind = .rightBrace →
      Spells n (opening :: (ts ++ [closing]))
        (.braced ⟨n', opening.pos⟩ body) (n' + 1)
  | expression {n n' : Nat} {ts : List Token} {s : Stmt} :
      Spells n ts (.exprStmt s) n' →
      Spells n ts (.stmt false s) n'
  | print {n n' : Nat} {ts : List Token} {word ending : Token} {e : Expr} :
      word.kind = .kwPrint →
      Spells n ts (.expr .assignment e) n' →
      ending.kind = .semicolon →
      Spells n (word :: (ts ++ [ending]))
        (.stmt false (.print ⟨n', word.pos⟩ e)) (n' + 1)
  | ret {n n' : Nat} {ts : List Token} {word ending : Token} {e : Option Expr} :
      word.kind = .kwReturn →
      Spells n ts (.maybe e) n' →
      ending.kind = .semicolon →
      Spells n (word :: (ts ++ [ending]))
        (.stmt false (.ret ⟨n', word.pos⟩ e)) (n' + 1)
  | block {n n' : Nat} {ts : List Token} {node : Node} {body : List Stmt} :
      Spells n ts (.braced node body) n' →
      Spells n ts (.stmt false (.block node body)) n'
  | cond {n n₁ n₂ : Nat} {ts ts' : List Token} {word opening closing : Token}
      {isOpen : Bool} {test : Expr} {yes : Stmt} :
      word.kind = .kwIf →
      opening.kind = .leftParen →
      Spells n ts (.expr .assignment test) n₁ →
      closing.kind = .rightParen →
      Spells n₁ ts' (.stmt isOpen yes) n₂ →
      Spells n (word :: opening :: (ts ++ closing :: ts'))
        (.stmt true (.cond ⟨n₂, word.pos⟩ test yes none)) (n₂ + 1)
  | condElse {n n₁ n₂ n₃ : Nat} {ts₁ ts₂ ts₃ : List Token}
      {word opening closing other : Token} {isOpen : Bool} {test : Expr}
      {yes no : Stmt} :
      word.kind = .kwIf →
      opening.kind = .leftParen →
      Spells n ts₁ (.expr .assignment test) n₁ →
      closing.kind = .rightParen →
      Spells n₁ ts₂ (.stmt false yes) n₂ →
      other.kind = .kwElse →
      Spells n₂ ts₃ (.stmt isOpen no) n₃ →
      Spells n
        (word :: opening :: (ts₁ ++ closing :: (ts₂ ++ other :: ts₃)))
        (.stmt isOpen (.cond ⟨n₃, word.pos⟩ test yes (some no))) (n₃ + 1)
  | loop {n n₁ n₂ : Nat} {ts ts' : List Token} {word opening closing : Token}
      {isOpen : Bool} {test : Expr} {body : Stmt} :
      word.kind = .kwWhile →
      opening.kind = .leftParen →
      Spells n ts (.expr .assignment test) n₁ →
      closing.kind = .rightParen →
      Spells n₁ ts' (.stmt isOpen body) n₂ →
      Spells n (word :: opening :: (ts ++ closing :: ts'))
        (.stmt isOpen (.loop ⟨n₂, word.pos⟩ test body)) (n₂ + 1)
  | forLoop {n n₁ n₂ n₃ n₄ : Nat} {ts₁ ts₂ ts₃ ts₄ : List Token}
      {word opening closing : Token} {isOpen : Bool} {first : Option Stmt}
      {test : Expr} {step : Option Expr} {body : Stmt} :
      word.kind = .kwFor →
      opening.kind = .leftParen →
      Spells n ts₁ (.clause first) n₁ →
      Spells n₁ ts₂ (.test test) n₂ →
      Spells n₂ ts₃ (.maybe step) n₃ →
      closing.kind = .rightParen →
      Spells n₃ ts₄ (.stmt isOpen body) n₄ →
      Spells n
        (word :: opening :: (ts₁ ++ (ts₂ ++ (ts₃ ++ closing :: ts₄))))
        (.stmt isOpen (forTree word.pos first test step body n₄).1)
        (forTree word.pos first test step body n₄).2
  | «variable» {n n' : Nat} {ts : List Token} {s : Stmt} :
      Spells n ts (.varDecl s) n' →
      Spells n ts (.decl s) n'
  | function {n n₁ n₂ : Nat} {ts ts' : List Token}
      {word t opening closing : Token} {params : List Name} {bodyNode : Node}
      {body : List Stmt} :
      word.kind = .kwFun →
      t.kind = .identifier →
      opening.kind = .leftParen →
      Spells n ts (.params params) n₁ →
      closing.kind = .rightParen →
      Spells n₁ ts' (.braced bodyNode body) n₂ →
      Spells n (word :: t :: opening :: (ts ++ closing :: ts'))
        (.decl (.funDecl ⟨n₂ + 1, word.pos⟩ ⟨t.lexeme, t.pos⟩ n₂ params
          bodyNode body))
        (n₂ + 2)
  | statement {n n' : Nat} {ts : List Token} {isOpen : Bool} {s : Stmt} :
      Spells n ts (.stmt isOpen s) n' →
      Spells n ts (.decl s) n'
  | nil {n : Nat} :
      Spells n [] (.decls []) n
  | cons {n n₁ n₂ : Nat} {ts ts' : List Token} {s : Stmt} {ss : List Stmt} :
      Spells n ts (.decl s) n₁ →
      Spells n₁ ts' (.decls ss) n₂ →
      Spells n (ts ++ ts') (.decls (s :: ss)) n₂

-- ================================================== how phrases begin

/-- Whether an expression begins with a token of this kind. -/
def TokenKind.beginsExpr : TokenKind → Bool
  | number | string | kwTrue | kwFalse | kwNil | identifier | leftParen
  | bang | minus => true
  | _ => false

/-- Whether a statement begins with a token of this kind. -/
def TokenKind.beginsStmt : TokenKind → Bool
  | kwFor | kwIf | kwPrint | kwReturn | kwWhile | leftBrace => true
  | kind => kind.beginsExpr

/-- Whether a declaration begins with a token of this kind. -/
def TokenKind.beginsDecl : TokenKind → Bool
  | kwVar | kwFun => true
  | kind => kind.beginsStmt

/-- The kinds of token that a phrase begins with, unless it may be
empty. -/
def Phrase.begins : Phrase → TokenKind → Bool
  | expr _ _ | exprStmt _ | args (_ :: _) | maybe (some _) =>
      TokenKind.beginsExpr
  | varDecl _ => fun kind => kind == .kwVar
  | braced _ _ => fun kind => kind == .leftBrace
  | stmt _ _ => TokenKind.beginsStmt
  | decl _ | decls (_ :: _) => TokenKind.beginsDecl
  | _ => fun _ => true

/-- Whether a phrase may be empty, or is not told by its first token. -/
def Phrase.mayBeEmpty : Phrase → Bool
  | args [] | params _ | maybe none | clause _ | test _ | decls [] => true
  | _ => false

theorem TokenKind.beginsStmt_of_beginsExpr {kind : TokenKind}
    (h : kind.beginsExpr = true) : kind.beginsStmt = true := by
  cases kind <;> simp_all [beginsExpr, beginsStmt]

theorem TokenKind.beginsDecl_of_beginsStmt {kind : TokenKind}
    (h : kind.beginsStmt = true) : kind.beginsDecl = true := by
  cases kind <;> simp_all [beginsExpr, beginsStmt, beginsDecl]

theorem TokenKind.beginsDecl_of_beginsExpr {kind : TokenKind}
    (h : kind.beginsExpr = true) : kind.beginsDecl = true :=
  beginsDecl_of_beginsStmt (beginsStmt_of_beginsExpr h)

theorem Literal.beginsExpr_of_ofToken? {t : Token} {value : Literal}
    (h : Literal.ofToken? t = some value) : t.kind.beginsExpr = true := by
  unfold Literal.ofToken? at h
  split at h <;> simp_all [TokenKind.beginsExpr]

theorem UnaryOp.beginsExpr_of_ofKind? {kind : TokenKind} {op : UnaryOp}
    (h : UnaryOp.ofKind? kind = some op) : kind.beginsExpr = true := by
  unfold UnaryOp.ofKind? at h
  split at h <;> simp_all [TokenKind.beginsExpr]

/-- A phrase that cannot be empty has a first token, and that tells what
the phrase may be. -/
theorem Spells.begins {n n' : Nat} {ts : List Token} {p : Phrase}
    (h : Spells n ts p n') (hp : p.mayBeEmpty = false) :
    ∃ t rest, ts = t :: rest ∧ p.begins t.kind = true := by
  induction h with
  | literal hvalue => exact ⟨_, _, rfl, Literal.beginsExpr_of_ofToken? hvalue⟩
  | unary hop => exact ⟨_, _, rfl, UnaryOp.beginsExpr_of_ofKind? hop⟩
  | var hkind | group hkind =>
      exact ⟨_, _, rfl, by simp [Phrase.begins, TokenKind.beginsExpr, hkind]⟩
  | call _ _ _ _ ih _ | join _ _ _ _ ih _ | moreArgs _ _ _ ih _
  | cons _ _ ih _ =>
      obtain ⟨t, rest, rfl, ht⟩ := ih rfl
      exact ⟨t, _, rfl, ht⟩
  | assign _ _ _ ih _ | exprStmt _ _ ih =>
      obtain ⟨t, rest, heq, ht⟩ := ih rfl
      injection heq with hfirst
      subst hfirst
      exact ⟨_, _, rfl, ht⟩
  | lift _ _ ih | oneArg _ ih | present _ ih => exact ih rfl
  | expression _ ih =>
      obtain ⟨t, rest, rfl, ht⟩ := ih rfl
      exact ⟨t, rest, rfl, TokenKind.beginsStmt_of_beginsExpr ht⟩
  | block _ ih =>
      obtain ⟨t, rest, rfl, ht⟩ := ih rfl
      have hkind : t.kind = .leftBrace := by simpa [Phrase.begins] using ht
      exact ⟨t, rest, rfl, by
        simp [Phrase.begins, TokenKind.beginsStmt, hkind]⟩
  | «variable» _ ih =>
      obtain ⟨t, rest, rfl, ht⟩ := ih rfl
      have hkind : t.kind = .kwVar := by simpa [Phrase.begins] using ht
      exact ⟨t, rest, rfl, by
        simp [Phrase.begins, TokenKind.beginsDecl, hkind]⟩
  | statement _ ih =>
      obtain ⟨t, rest, rfl, ht⟩ := ih rfl
      exact ⟨t, rest, rfl, TokenKind.beginsDecl_of_beginsStmt ht⟩
  | noArgs | noParams | oneParam | moreParams | absent | noClause
  | varClause | exprClause | noTest | someTest | nil => cases hp
  | varDecl hkind | varInit hkind | braced hkind | print hkind
  | ret hkind | cond hkind | condElse hkind | loop hkind
  | forLoop hkind | function hkind =>
      exact ⟨_, _, rfl, by
        simp [Phrase.begins, TokenKind.beginsStmt, TokenKind.beginsDecl,
          hkind]⟩

end Lox
