/-
What is in the grammar is accepted. Tokens that spell a phrase are taken
by the reader of that phrase, and the reader makes of them what they
spell, provided that its budget is large enough and that what stands
behind the phrase does not go on with it.

# What stands behind

A reader takes as much as it can, so an expression has to be followed by
a token that could not be a part of it (`Stops`), and an open statement
by a token that is not `else`. Inside a phrase this holds by the
grammar, since the token behind each part is known.

# The shape of the induction

It follows the rules of the grammar. Operators of a level group to the
left and are read in a loop, so of those (and of the argument lists
behind a callee) it is said that the reader arrives in the loop with the
expression as its left side (`joined`, `called` in `Accepted`), with as
much of the budget left as the tokens taken allow.
-/
import Lox.Proofs.Reading.Sound
import Lox.Proofs.Tree.Render

namespace Lox

open Reader

-- ========================================================= what stands behind

/-- The kind of the first of some tokens; behind the last there is the
end of the text. -/
def kindAt : List Token → TokenKind
  | [] => .endOfText
  | t :: _ => t.kind

@[simp] theorem kindAt_cons (t : Token) (ts : List Token) :
    kindAt (t :: ts) = t.kind := rfl

/-- A token of this kind does not go on with an expression whose
operators bind at least so tight. -/
def Stops (tightness : Nat) (kind : TokenKind) : Prop :=
  kind ≠ .leftParen ∧
    ∀ ℓ : Level, tightness ≤ ℓ.tightness → ℓ.connective? kind = none

/-- A token of this kind does not go on with an expression. -/
def StopsExpr (kind : TokenKind) : Prop :=
  Stops 0 kind ∧ kind ≠ .equal

/-- What does not go on with operands that bind loosely does not go on with
tighter ones either, since there are fewer operators for those. -/
theorem Stops.mono {loose tight : Nat} {kind : TokenKind}
    (h : Stops loose kind) (hle : loose ≤ tight) : Stops tight kind :=
  ⟨h.1, fun ℓ hℓ => h.2 ℓ (Nat.le_trans hle hℓ)⟩

/-- A closing parenthesis ends any expression, be it in a grouping, a list of
arguments or the head of a statement. -/
theorem stopsExpr_rightParen : StopsExpr .rightParen :=
  ⟨⟨nofun, fun ℓ _ => by cases ℓ <;> rfl⟩, nofun⟩

/-- A comma ends an argument. -/
theorem stopsExpr_comma : StopsExpr .comma :=
  ⟨⟨nofun, fun ℓ _ => by cases ℓ <;> rfl⟩, nofun⟩

/-- A semicolon ends the expression of a statement. -/
theorem stopsExpr_semicolon : StopsExpr .semicolon :=
  ⟨⟨nofun, fun ℓ _ => by cases ℓ <;> rfl⟩, nofun⟩

/-- An equals sign is no operator, so the target of an assignment is read
whole and ends before it. -/
theorem stops_equal : Stops 0 .equal :=
  ⟨nofun, fun ℓ _ => by cases ℓ <;> rfl⟩

/-- An operator does not go on with operands of its level. -/
theorem stops_of_connective? {ℓ : Level} {kind : TokenKind}
    {op : Connective} (h : ℓ.connective? kind = some op) :
    Stops (ℓ.tightness + 1) kind := by
  constructor
  · rintro rfl
    cases ℓ <;> simp [Level.connective?] at h
  · intro ℓ' hlt
    cases ℓ <;> cases kind <;> simp [Level.connective?] at h <;>
      cases ℓ' <;> simp [Level.tightness] at hlt <;> rfl

/-- From one level to the next, operators bind tighter by one. -/
theorem Level.tightness_tighter? {ℓ tighter : Level}
    (h : ℓ.tighter? = some tighter) :
    tighter.tightness = ℓ.tightness + 1 := by
  cases ℓ <;> cases h <;> rfl

/-- The tightest level is the sixth; behind it there is no level, but the
operators with one operand. -/
theorem Level.tightness_of_tighter?_none {ℓ : Level}
    (h : ℓ.tighter? = none) : ℓ.tightness = 6 := by
  cases ℓ <;> cases h
  rfl

-- =============================================================== cursors

namespace Reader

variable {β : Type} {t : Token} {ts : List Token} {n : Nat}
  {errors : List SyntaxError} {f : Token → Reader β}

/-- The kind that a reader sees is that of the first token ahead. -/
theorem kind_current (ts : List Token) :
    (Cursor.mk ts n errors).current.kind = kindAt ts := by
  cases ts <;> rfl

/-- To go on from a token that is not the end is to drop it. -/
theorem advance_cons (h : t.kind ≠ .endOfText) :
    (Cursor.mk (t :: ts) n errors).advance = ⟨ts, n, errors⟩ := by
  simp [Cursor.advance, h]

/-- A token at hand is taken, and the reading goes on with it. -/
theorem take_cons (h : t.kind ≠ .endOfText) :
    (take >>= f) ⟨t :: ts, n, errors⟩ = f t ⟨ts, n, errors⟩ := by
  rw [take_bind, advance_cons h]
  rfl

/-- The kind of the next token is looked at and nothing is taken. -/
theorem kind_mk {f : TokenKind → Reader β} :
    (kind >>= f) ⟨ts, n, errors⟩ = f (kindAt ts) ⟨ts, n, errors⟩ := by
  rw [kind_bind, kind_current]

/-- A token that has to come and is there is taken. -/
theorem expect_cons {wanted : TokenKind} {fault : TokenKind → SyntaxFault}
    (h : t.kind = wanted) (hwanted : wanted ≠ .endOfText) :
    (expect wanted fault >>= f) ⟨t :: ts, n, errors⟩
      = f t ⟨ts, n, errors⟩ := by
  rw [expect_bind, if_pos (by exact h), advance_cons (h ▸ hwanted)]
  rfl

/-- A token that may come and is there is taken. -/
theorem takeIf_cons {f : Bool → Reader β} {wanted : TokenKind}
    (h : t.kind = wanted) (hwanted : wanted ≠ .endOfText) :
    (takeIf wanted >>= f) ⟨t :: ts, n, errors⟩
      = f true ⟨ts, n, errors⟩ := by
  rw [takeIf_bind, if_pos (by exact h), advance_cons (h ▸ hwanted)]

/-- A token that may come and is not there changes nothing. -/
theorem takeIf_of_ne {f : Bool → Reader β} {wanted : TokenKind}
    (h : kindAt ts ≠ wanted) :
    (takeIf wanted >>= f) ⟨ts, n, errors⟩ = f false ⟨ts, n, errors⟩ := by
  rw [takeIf_bind, if_neg (by rwa [kind_current])]

end Reader

-- ============================================================ acceptance

/-- How many steps the reader of a phrase may make before it takes a
token. -/
def Phrase.steps : Phrase → Nat
  | expr .primary _ => 0
  | expr .call _ => 1
  | expr .unary _ => 2
  | expr (.level ℓ) _ => 16 - 2 * ℓ.tightness
  | args _ | params _ | stmt _ _ => 16
  | decl _ => 17
  | decls _ => 18
  | _ => 15

/-- A token of this kind behind a phrase does not go on with it. -/
def Phrase.StopsAt : Phrase → TokenKind → Prop
  | expr .assignment _, kind | maybe _, kind => StopsExpr kind
  | expr (.level ℓ) _, kind => Stops (ℓ.tightness + 1) kind
  | expr .unary _, kind => kind ≠ .leftParen
  | args _, kind | params _, kind => kind = .rightParen
  | stmt isOpen _, kind => isOpen = true → kind ≠ .kwElse
  | decl _, kind | decls _, kind => kind ≠ .kwElse
  | _, _ => True

/-- The reader of a phrase comes from one cursor to another, having
taken so many tokens. -/
def Phrase.Taken (budget taken : Nat) (c c' : Cursor) : Phrase → Prop
  | expr .assignment e => expression budget c = .ok e c'
  | expr (.level ℓ) e => ∃ left, budget ≤ left + taken ∧
      joined budget ℓ c = joinedMore left ℓ e c'
  | expr .unary e => unary budget c = .ok e c'
  | expr .call e => ∃ left, budget ≤ left + taken ∧
      called budget c = calledMore left e c'
  | expr .primary e => primary budget c = .ok e c'
  | args es => es ≠ [] → arguments budget c = .ok es c'
  | params names => names ≠ [] → parameters budget c = .ok names c'
  | maybe e => ∀ e', e = some e' → expression budget c = .ok e' c'
  | varDecl s => Reader.varDecl budget c = .ok s c'
  | exprStmt s => Reader.exprStmt budget c = .ok s c'
  | clause first => forInit budget c = .ok first c'
  | test e => ∃ ending : Token, ending.kind = .semicolon ∧
      forTest budget c = .ok e { c' with rest := ending :: c'.rest }
  | braced node body => Reader.braced budget c = .ok (node, body) c'
  | stmt _ s => statement budget c = .ok s c'
  | decl s => declaration budget c = .ok (some s) c'
  | decls ss => ∀ ends, (∀ kind, ends kind = true →
        kind.beginsDecl = false) →
      ends c'.current.kind = true → declarations ends budget c = .ok ss c'

/-- Whatever stands behind the tokens, if it does not go on with the
phrase, then the reader of the phrase takes just these. -/
def Accepted (n : Nat) (ts : List Token) (p : Phrase) (n' : Nat) : Prop :=
  ∀ (budget : Nat) (tail : List Token) (errors : List SyntaxError),
    32 * ts.length + p.steps ≤ budget → p.StopsAt (kindAt tail) →
      p.Taken budget ts.length ⟨ts ++ tail, n, errors⟩ ⟨tail, n', errors⟩

-- =========================================================== expressions

section Exprs

variable {n n' n₁ n₂ : Nat} {ts ts' : List Token} {e : Expr}

/-- An expression is taken whole before a token that does not go on with
it. -/
private theorem Accepted.before
    (h : Accepted n ts (.expr .assignment e) n') {budget : Nat}
    {t : Token} {kind : TokenKind} {tail : List Token}
    {errors : List SyntaxError} (ht : t.kind = kind)
    (hstop : StopsExpr kind) (hbudget : 32 * ts.length + 15 ≤ budget) :
    expression budget ⟨ts ++ t :: tail, n, errors⟩
      = .ok e ⟨t :: tail, n', errors⟩ :=
  h budget (t :: tail) errors hbudget (by rwa [kindAt_cons, ht])

/-- A literal is not the end of the text, so it can be taken. -/
theorem Literal.kind_ne_end {t : Token} {value : Literal}
    (h : Literal.ofToken? t = some value) : t.kind ≠ .endOfText := by
  intro hend
  simp [Literal.ofToken?, hend] at h

/-- The first tokens of the other primary expressions are no literals, so the
reader, which looks for literals first, goes on to those. -/
theorem Literal.ofToken?_eq_none {t : Token}
    (h : t.kind = .identifier ∨ t.kind = .leftParen) :
    Literal.ofToken? t = none := by
  rcases h with h | h <;> simp [Literal.ofToken?, h]

/-- A literal is one token, and the reader has it in hand at once. -/
private theorem accepted_literal {t : Token} {value : Literal}
    (hvalue : Literal.ofToken? t = some value) :
    Accepted n [t] (.expr .primary (.literal ⟨n, t.pos⟩ value)) (n + 1) := by
  intro budget tail errors hbudget _
  obtain ⟨budget, rfl⟩ := Nat.exists_eq_add_one_of_ne_zero
    (show budget ≠ 0 by simp at hbudget; omega)
  show primary _ _ = _
  rw [primary, current_bind]
  have hcurrent : (Cursor.mk ([t] ++ tail) n errors).current = t := rfl
  simp only [hcurrent, hvalue]
  rw [List.singleton_append, take_cons (Literal.kind_ne_end hvalue)]
  rfl

/-- So is a variable. -/
private theorem accepted_var {t : Token} (hkind : t.kind = .identifier) :
    Accepted n [t] (.expr .primary (.var ⟨n, t.pos⟩ t.lexeme)) (n + 1) := by
  intro budget tail errors hbudget _
  obtain ⟨budget, rfl⟩ := Nat.exists_eq_add_one_of_ne_zero
    (show budget ≠ 0 by simp at hbudget; omega)
  show primary _ _ = _
  rw [primary, current_bind]
  have hcurrent : (Cursor.mk ([t] ++ tail) n errors).current = t := rfl
  simp only [hcurrent, Literal.ofToken?_eq_none (.inl hkind), hkind]
  rw [List.singleton_append, take_cons (by simp [hkind])]
  rfl

/-- What stands in parentheses ends before the closing one, whatever stands
behind that. -/
private theorem accepted_group {opening closing : Token}
    (hopen : opening.kind = .leftParen)
    (h : Accepted n ts (.expr .assignment e) n')
    (hclose : closing.kind = .rightParen) :
    Accepted n (opening :: (ts ++ [closing]))
      (.expr .primary (.group ⟨n', opening.pos⟩ e)) (n' + 1) := by
  intro budget tail errors hbudget _
  simp only [List.length_cons, List.length_append, Phrase.steps] at hbudget
  obtain ⟨budget, rfl⟩ := Nat.exists_eq_add_one_of_ne_zero
    (show budget ≠ 0 by omega)
  have hinner : expression budget ⟨ts ++ closing :: tail, n, errors⟩
      = .ok e ⟨closing :: tail, n', errors⟩ :=
    h.before hclose stopsExpr_rightParen (by omega)
  show primary _ ⟨opening :: (ts ++ [closing] ++ tail), n, errors⟩ = _
  rw [primary, current_bind]
  have hcurrent : (Cursor.mk (opening :: (ts ++ [closing] ++ tail)) n
      errors).current = opening := rfl
  simp only [hcurrent, Literal.ofToken?_eq_none (.inr hopen), hopen]
  rw [take_cons (by simp [hopen]), List.append_assoc,
    List.singleton_append, bind_of_ok hinner, takeIf_cons hclose (by decide)]
  rfl

/-- Where nothing goes on with a call, the loop over argument lists ends
with its callee. -/
private theorem calledMore_stops {budget : Nat} {tail : List Token}
    {errors : List SyntaxError} (hbudget : budget ≠ 0)
    (hstop : kindAt tail ≠ .leftParen) :
    calledMore budget e ⟨tail, n, errors⟩ = .ok e ⟨tail, n, errors⟩ := by
  obtain ⟨budget, rfl⟩ := Nat.exists_eq_add_one_of_ne_zero hbudget
  rw [calledMore, kind_mk, if_neg hstop]
  rfl

/-- Where nothing goes on with a level, its loop ends with the left
side. -/
private theorem joinedMore_stops {budget : Nat} {ℓ : Level}
    {tail : List Token} {errors : List SyntaxError} (hbudget : budget ≠ 0)
    (hstop : ℓ.connective? (kindAt tail) = none) :
    joinedMore budget ℓ e ⟨tail, n, errors⟩
      = .ok e ⟨tail, n, errors⟩ := by
  obtain ⟨budget, rfl⟩ := Nat.exists_eq_add_one_of_ne_zero hbudget
  rw [joinedMore, kind_mk]
  simp only [hstop]
  rfl

/-- Where nothing goes on with a call, its tokens are taken whole. -/
private theorem Accepted.called
    (h : Accepted n ts (.expr .call e) n') {budget : Nat}
    {tail : List Token} {errors : List SyntaxError}
    (hbudget : 32 * ts.length + 1 ≤ budget)
    (hstop : kindAt tail ≠ .leftParen) :
    Reader.called budget ⟨ts ++ tail, n, errors⟩
      = .ok e ⟨tail, n', errors⟩ := by
  obtain ⟨left, hleft, heq⟩ := h budget tail errors hbudget trivial
  rw [heq, calledMore_stops (by omega) hstop]

/-- Where nothing goes on with a level, its tokens are taken whole. -/
private theorem Accepted.joined {ℓ : Level}
    (h : Accepted n ts (.expr (.level ℓ) e) n') {budget : Nat}
    {tail : List Token} {errors : List SyntaxError}
    (hbudget : 32 * ts.length + (16 - 2 * ℓ.tightness) ≤ budget)
    (hstop : Stops ℓ.tightness (kindAt tail)) :
    Reader.joined budget ℓ ⟨ts ++ tail, n, errors⟩
      = .ok e ⟨tail, n', errors⟩ := by
  have hsteps : 4 ≤ 16 - 2 * ℓ.tightness := by cases ℓ <;> decide
  obtain ⟨left, hleft, heq⟩ := h budget tail errors hbudget
    (hstop.mono (by omega))
  rw [heq, joinedMore_stops (by omega) (hstop.2 ℓ (by omega))]

/-- What is tighter than a level is taken as an operand of it. -/
private theorem Accepted.operand {ℓ : Level} {tighter : Rank}
    (hrank : (Rank.level ℓ).tighter? = some tighter)
    (h : Accepted n ts (.expr tighter e) n') {budget : Nat}
    {tail : List Token} {errors : List SyntaxError}
    (hbudget : 32 * ts.length + (15 - 2 * ℓ.tightness) ≤ budget)
    (hstop : Stops (ℓ.tightness + 1) (kindAt tail)) :
    Reader.operand budget ℓ ⟨ts ++ tail, n, errors⟩
      = .ok e ⟨tail, n', errors⟩ := by
  have hsteps : 3 ≤ 15 - 2 * ℓ.tightness := by cases ℓ <;> decide
  obtain ⟨budget, rfl⟩ := Nat.exists_eq_add_one_of_ne_zero
    (show budget ≠ 0 by omega)
  rw [Reader.operand]
  cases hℓ : ℓ.tighter? with
  | some ℓ' =>
    have htight := Level.tightness_tighter? hℓ
    simp only [Rank.tighter?, hℓ, Option.map_some, Option.getD_some,
      Option.some.injEq] at hrank
    subst hrank
    exact h.joined (by omega) (by rwa [htight])
  | none =>
    have htight := Level.tightness_of_tighter?_none hℓ
    simp only [Rank.tighter?, hℓ, Option.map_none, Option.getD_none,
      Option.some.injEq] at hrank
    subst hrank
    exact h budget tail errors (by simp only [Phrase.steps]; omega) hstop.1

/-- What an expression is spelled by is not empty. -/
theorem Spells.length_pos {rank : Rank}
    (h : Spells n ts (.expr rank e) n') : 0 < ts.length := by
  obtain ⟨t, rest, rfl, -⟩ := h.begins rfl
  exact Nat.zero_lt_succ _

/-- The first token of a phrase tells what the phrase may be. -/
private theorem kindAt_of_begins {p : Phrase} (h : Spells n ts p n')
    (hp : p.mayBeEmpty = false) (tail : List Token) :
    p.begins (kindAt (ts ++ tail)) = true := by
  obtain ⟨t, rest, rfl, ht⟩ := h.begins hp
  exact ht

/-- A call puts one more list of arguments behind its callee, which the loop
over such lists takes in its next round. -/
private theorem accepted_call {callee : Expr} {args : List Expr}
    {opening closing : Token}
    (hcallee : Accepted n ts (.expr .call callee) n₁)
    (hopen : opening.kind = .leftParen)
    (hspells : Spells n₁ ts' (.args args) n₂)
    (hargs : Accepted n₁ ts' (.args args) n₂)
    (hclose : closing.kind = .rightParen) :
    Accepted n (ts ++ opening :: (ts' ++ [closing]))
      (.expr .call (.call ⟨n₂ + 1, opening.pos⟩ n₂ callee args))
      (n₂ + 2) := by
  intro budget tail errors hbudget _
  simp only [List.length_append, List.length_cons, Phrase.steps] at hbudget
  obtain ⟨left, hleft, heq⟩ := hcallee budget
    (opening :: (ts' ++ closing :: tail)) errors
    (by simp only [Phrase.steps]; omega) trivial
  obtain ⟨left, rfl⟩ := Nat.exists_eq_add_one_of_ne_zero
    (show left ≠ 0 by omega)
  refine ⟨left, by simp only [List.length_append, List.length_cons]; omega, ?_⟩
  rw [List.append_assoc, List.cons_append, List.append_assoc,
    List.singleton_append, heq, calledMore, kind_mk,
    if_pos (by exact hopen), take_cons (by simp [hopen]), kind_mk, run_ite]
  cases args with
  | nil =>
    cases hspells
    rw [List.nil_append, if_pos (by exact hclose), pure_bind]
    exact expect_cons hclose (by decide)
  | cons arg args =>
    -- An argument does not begin with the parenthesis that closes.
    have hfirst : kindAt (ts' ++ closing :: tail) ≠ .rightParen := by
      intro hkind
      have := kindAt_of_begins hspells rfl (closing :: tail)
      rw [hkind] at this
      cases this
    have hread : arguments left ⟨ts' ++ closing :: tail, n₁, errors⟩
        = .ok (arg :: args) ⟨closing :: tail, n₂, errors⟩ :=
      hargs left (closing :: tail) errors
        (by simp only [Phrase.steps]; omega) hclose (by simp)
    rw [if_neg hfirst, bind_of_ok hread]
    exact expect_cons hclose (by decide)

/-- An operand with a sign in front has one token more, and that pays for the
step down to the operand. -/
private theorem accepted_unary {sign : Token} {op : UnaryOp}
    (hop : UnaryOp.ofKind? sign.kind = some op)
    (h : Accepted n ts (.expr .unary e) n') :
    Accepted n (sign :: ts) (.expr .unary (.unary ⟨n', sign.pos⟩ op e))
      (n' + 1) := by
  intro budget tail errors hbudget hstop
  simp only [List.length_cons, Phrase.steps] at hbudget
  obtain ⟨budget, rfl⟩ := Nat.exists_eq_add_one_of_ne_zero
    (show budget ≠ 0 by omega)
  have hinner : unary budget ⟨ts ++ tail, n, errors⟩
      = .ok e ⟨tail, n', errors⟩ :=
    h budget tail errors (by simp only [Phrase.steps]; omega) hstop
  have hend : sign.kind ≠ .endOfText := by
    intro hend
    simp [hend, UnaryOp.ofKind?] at hop
  show unary _ _ = _
  rw [unary, List.cons_append, kind_mk, kindAt_cons]
  simp only [hop]
  rw [take_cons hend, bind_of_ok hinner]
  rfl

/-- Two operands of a level: the left side is what the loop has at hand,
and the right side is tighter, so it ends before the next operator of the
level. -/
private theorem accepted_join {ℓ : Level} {tighter : Rank} {sign : Token}
    {op : Connective} {left right : Expr}
    (hleft : Accepted n ts (.expr (.level ℓ) left) n₁)
    (hop : ℓ.connective? sign.kind = some op)
    (hrank : (Rank.level ℓ).tighter? = some tighter)
    (hright : Accepted n₁ ts' (.expr tighter right) n₂) :
    Accepted n (ts ++ sign :: ts')
      (.expr (.level ℓ) (op.join ⟨n₂, sign.pos⟩ left right)) (n₂ + 1) := by
  intro budget tail errors hbudget hstop
  simp only [List.length_append, List.length_cons, Phrase.steps] at hbudget
  have hend : sign.kind ≠ .endOfText := by
    intro hend
    cases ℓ <;> simp [hend, Level.connective?] at hop
  obtain ⟨more, hmore, heq⟩ := hleft budget (sign :: (ts' ++ tail)) errors
    (by simp only [Phrase.steps]; omega) (stops_of_connective? hop)
  obtain ⟨more, rfl⟩ := Nat.exists_eq_add_one_of_ne_zero
    (show more ≠ 0 by omega)
  refine ⟨more, by simp only [List.length_append, List.length_cons]; omega, ?_⟩
  have hread : operand more ℓ ⟨ts' ++ tail, n₁, errors⟩
      = .ok right ⟨tail, n₂, errors⟩ :=
    hright.operand hrank (by omega) hstop
  rw [List.append_assoc, List.cons_append, heq, joinedMore, kind_mk,
    kindAt_cons]
  simp only [hop]
  rw [take_cons hend, bind_of_ok hread]
  rfl

/-- A call does not begin with an operator. -/
private theorem UnaryOp.ofKind?_of_call {p : Phrase} (h : Spells n ts p n')
    (hp : p = .expr .primary e ∨ p = .expr .call e) (tail : List Token) :
    UnaryOp.ofKind? (kindAt (ts ++ tail)) = none := by
  induction h generalizing e tail with
  | literal hvalue =>
    unfold Literal.ofToken? at hvalue
    split at hvalue <;> simp_all [kindAt, UnaryOp.ofKind?]
  | var hkind | group hkind => simp [kindAt, hkind, UnaryOp.ofKind?]
  | call _ _ _ _ ih _ =>
    rw [List.append_assoc]
    exact ih (.inr rfl) _
  | lift hrank _ ih =>
    obtain h | h := hp
    · cases h
      cases hrank
    · cases h
      cases hrank
      exact ih (.inl rfl) tail
  | _ => simp at hp

/-- What is an expression of a tighter rank is one of the looser rank too. The
reader of the looser rank goes down to it in one step, and nothing behind it
goes on with it. -/
private theorem accepted_lift {rank tighter : Rank}
    (hrank : rank.tighter? = some tighter)
    (hspells : Spells n ts (.expr tighter e) n')
    (h : Accepted n ts (.expr tighter e) n') :
    Accepted n ts (.expr rank e) n' := by
  intro budget tail errors hbudget hstop
  -- Each rank has a reader of its own, which first asks that of the tighter
  -- rank.
  cases rank with
  | assignment =>
    cases hrank
    obtain ⟨budget, rfl⟩ := Nat.exists_eq_add_one_of_ne_zero
      (show budget ≠ 0 by simp only [Phrase.steps] at hbudget; omega)
    show expression _ _ = _
    have hread : joined budget .or ⟨ts ++ tail, n, errors⟩
        = .ok e ⟨tail, n', errors⟩ :=
      h.joined (by
        simp only [Phrase.steps] at hbudget
        simp only [Level.tightness]
        omega)
        (hstop.1.mono (by omega))
    rw [expression, current_bind, bind_of_ok hread, kind_mk,
      if_neg hstop.2]
    rfl
  | level ℓ =>
    simp only [Phrase.steps] at hbudget
    have hsteps : 4 ≤ 16 - 2 * ℓ.tightness := by cases ℓ <;> decide
    obtain ⟨budget, rfl⟩ := Nat.exists_eq_add_one_of_ne_zero
      (show budget ≠ 0 by omega)
    have hread : operand budget ℓ ⟨ts ++ tail, n, errors⟩
        = .ok e ⟨tail, n', errors⟩ := h.operand hrank (by omega) hstop
    refine ⟨budget, ?_, ?_⟩
    · have := hspells.length_pos
      omega
    · rw [joined, bind_of_ok hread]
  | unary =>
    cases hrank
    simp only [Phrase.steps] at hbudget
    obtain ⟨budget, rfl⟩ := Nat.exists_eq_add_one_of_ne_zero
      (show budget ≠ 0 by omega)
    show unary _ _ = _
    rw [unary, kind_mk]
    simp only [UnaryOp.ofKind?_of_call hspells (.inr rfl) tail]
    exact h.called (by omega) hstop
  | call =>
    cases hrank
    simp only [Phrase.steps] at hbudget
    obtain ⟨budget, rfl⟩ := Nat.exists_eq_add_one_of_ne_zero
      (show budget ≠ 0 by omega)
    have hread : primary budget ⟨ts ++ tail, n, errors⟩
        = .ok e ⟨tail, n', errors⟩ :=
      h budget tail errors (by simp only [Phrase.steps]; omega) trivial
    refine ⟨budget, ?_, ?_⟩
    · have := hspells.length_pos
      omega
    · rw [called, bind_of_ok hread]
  | primary => cases hrank

/-- An assignment: its target is read like any expression, and only then does
the equals sign show what it is. -/
private theorem accepted_assign {first sign : Token} {target : Node}
    {name : String} {value : Expr}
    (htarget : Accepted n (first :: ts)
      (.expr (.level .or) (.var target name)) n₁)
    (hsign : sign.kind = .equal)
    (hvalue : Accepted n₁ ts' (.expr .assignment value) n₂) :
    Accepted n (first :: (ts ++ sign :: ts'))
      (.expr .assignment (.assign ⟨n₂, first.pos⟩ name value)) (n₂ + 1) := by
  intro budget tail errors hbudget hstop
  simp only [List.length_append, List.length_cons, Phrase.steps] at hbudget
  obtain ⟨budget, rfl⟩ := Nat.exists_eq_add_one_of_ne_zero
    (show budget ≠ 0 by omega)
  have hleft : joined budget .or
      ⟨first :: (ts ++ sign :: (ts' ++ tail)), n, errors⟩
      = .ok (.var target name) ⟨sign :: (ts' ++ tail), n₁, errors⟩ :=
    htarget.joined
      (by simp only [List.length_cons, Level.tightness]; omega)
      (by rw [kindAt_cons, hsign]; exact stops_equal.mono (by omega))
  have hright : expression budget ⟨ts' ++ tail, n₁, errors⟩
      = .ok value ⟨tail, n₂, errors⟩ :=
    hvalue budget tail errors (by simp only [Phrase.steps]; omega) hstop
  show expression _ ⟨first :: (ts ++ sign :: ts' ++ tail), n, errors⟩ = _
  rw [expression, current_bind, List.append_assoc, List.cons_append,
    bind_of_ok hleft, kind_mk, if_pos (by exact hsign),
    take_cons (by simp [hsign]), bind_of_ok hright]
  rfl

/-- The last argument has no comma behind it, but the closing parenthesis. -/
private theorem accepted_oneArg
    (h : Accepted n ts (.expr .assignment e) n') :
    Accepted n ts (.args [e]) n' := by
  intro budget tail errors hbudget hstop _
  simp only [Phrase.steps] at hbudget
  obtain ⟨budget, rfl⟩ := Nat.exists_eq_add_one_of_ne_zero
    (show budget ≠ 0 by omega)
  have hstop : kindAt tail = .rightParen := hstop
  have hread : expression budget ⟨ts ++ tail, n, errors⟩
      = .ok e ⟨tail, n', errors⟩ :=
    h budget tail errors (by simp only [Phrase.steps]; omega)
      (by rw [hstop]; exact stopsExpr_rightParen)
  rw [arguments, bind_of_ok hread, takeIf_of_ne (by simp [hstop])]
  rfl

/-- Behind an argument and a comma there is at least one more. -/
private theorem accepted_moreArgs {comma : Token} {e' : Expr}
    {es : List Expr} (h : Accepted n ts (.expr .assignment e) n₁)
    (hcomma : comma.kind = .comma)
    (hmore : Accepted n₁ ts' (.args (e' :: es)) n₂) :
    Accepted n (ts ++ comma :: ts') (.args (e :: e' :: es)) n₂ := by
  intro budget tail errors hbudget hstop _
  simp only [List.length_append, List.length_cons, Phrase.steps] at hbudget
  obtain ⟨budget, rfl⟩ := Nat.exists_eq_add_one_of_ne_zero
    (show budget ≠ 0 by omega)
  have hfirst : expression budget ⟨ts ++ comma :: (ts' ++ tail), n, errors⟩
      = .ok e ⟨comma :: (ts' ++ tail), n₁, errors⟩ :=
    h.before hcomma stopsExpr_comma (by omega)
  have hothers : arguments budget ⟨ts' ++ tail, n₁, errors⟩
      = .ok (e' :: es) ⟨tail, n₂, errors⟩ :=
    hmore budget tail errors (by simp only [Phrase.steps]; omega) hstop
      (by simp)
  rw [List.append_assoc, List.cons_append, arguments, bind_of_ok hfirst,
    takeIf_cons hcomma (by decide)]
  simp only [↓reduceIte]
  rw [bind_of_ok hothers]
  rfl

end Exprs

-- ===================================================== simple statements

section Simple

variable {n n' : Nat} {ts : List Token} {e : Expr}

/-- The same for parameters. -/
private theorem accepted_moreParams {t comma : Token} {name : Name}
    {names : List Name} (hkind : t.kind = .identifier)
    (hcomma : comma.kind = .comma)
    (h : Accepted n ts (.params (name :: names)) n') :
    Accepted n (t :: comma :: ts)
      (.params (⟨t.lexeme, t.pos⟩ :: name :: names)) n' := by
  intro budget tail errors hbudget hstop _
  simp only [List.length_cons, Phrase.steps] at hbudget
  obtain ⟨budget, rfl⟩ := Nat.exists_eq_add_one_of_ne_zero
    (show budget ≠ 0 by omega)
  have hothers : parameters budget ⟨ts ++ tail, n, errors⟩
      = .ok (name :: names) ⟨tail, n', errors⟩ :=
    h budget tail errors (by simp only [Phrase.steps]; omega) hstop
      (by simp)
  rw [List.cons_append, List.cons_append, parameters,
    expect_cons hkind (by decide), takeIf_cons hcomma (by decide)]
  simp only [↓reduceIte]
  rw [bind_of_ok hothers]
  rfl

/-- The last parameter is a name alone. -/
private theorem accepted_oneParam {t : Token}
    (hkind : t.kind = .identifier) :
    Accepted n [t] (.params [⟨t.lexeme, t.pos⟩]) n := by
  intro budget tail errors hbudget hstop _
  simp only [List.length_singleton, Phrase.steps] at hbudget
  obtain ⟨budget, rfl⟩ := Nat.exists_eq_add_one_of_ne_zero
    (show budget ≠ 0 by omega)
  have hstop : kindAt tail = .rightParen := hstop
  rw [List.singleton_append, parameters, expect_cons hkind (by decide),
    takeIf_of_ne (by simp [hstop])]
  rfl

/-- A declaration without an initializer, which the semicolon behind the name
shows to be missing. -/
private theorem accepted_varDecl {word t ending : Token}
    (hword : word.kind = .kwVar) (hname : t.kind = .identifier)
    (hend : ending.kind = .semicolon) :
    Accepted n [word, t, ending]
      (.varDecl (.varDecl ⟨n, word.pos⟩ ⟨t.lexeme, t.pos⟩ none))
      (n + 1) := by
  intro budget tail errors _ _
  show Reader.varDecl _ ⟨word :: t :: ending :: tail, n, errors⟩ = _
  rw [Reader.varDecl, take_cons (by simp [hword]),
    expect_cons hname (by decide), takeIf_of_ne (by simp [hend])]
  simp only [Bool.false_eq_true, ↓reduceIte, pure_bind]
  rw [Reader.ending, expect_cons hend (by decide)]
  rfl

/-- A declaration with an initializer, which is read up to the semicolon. -/
private theorem accepted_varInit {word t sign ending : Token}
    (hword : word.kind = .kwVar) (hname : t.kind = .identifier)
    (hsign : sign.kind = .equal)
    (h : Accepted n ts (.expr .assignment e) n')
    (hend : ending.kind = .semicolon) :
    Accepted n (word :: t :: sign :: (ts ++ [ending]))
      (.varDecl (.varDecl ⟨n', word.pos⟩ ⟨t.lexeme, t.pos⟩ (some e)))
      (n' + 1) := by
  intro budget tail errors hbudget _
  simp only [List.length_cons, List.length_append, Phrase.steps] at hbudget
  have hread : (some <$> expression budget)
      ⟨ts ++ ending :: tail, n, errors⟩
      = .ok (some e) ⟨ending :: tail, n', errors⟩ :=
    map_eq_ok.2 ⟨e, h.before hend stopsExpr_semicolon (by omega), rfl⟩
  show Reader.varDecl _
    ⟨word :: t :: sign :: (ts ++ [ending] ++ tail), n, errors⟩ = _
  rw [Reader.varDecl, take_cons (by simp [hword]),
    expect_cons hname (by decide), takeIf_cons hsign (by decide)]
  simp only [↓reduceIte]
  rw [List.append_assoc, List.singleton_append, bind_of_ok hread,
    Reader.ending, expect_cons hend (by decide)]
  rfl

/-- An expression as a statement. Its node is placed at its first token, so it
needs one. -/
private theorem accepted_exprStmt {first ending : Token}
    (h : Accepted n (first :: ts) (.expr .assignment e) n')
    (hend : ending.kind = .semicolon) :
    Accepted n (first :: (ts ++ [ending]))
      (.exprStmt (.expr ⟨n', first.pos⟩ e)) (n' + 1) := by
  intro budget tail errors hbudget _
  simp only [List.length_cons, List.length_append, Phrase.steps] at hbudget
  have hread : expression budget
      ⟨first :: (ts ++ ending :: tail), n, errors⟩
      = .ok e ⟨ending :: tail, n', errors⟩ :=
    h.before hend stopsExpr_semicolon (by simp only [List.length_cons]; omega)
  show Reader.exprStmt _ ⟨first :: (ts ++ [ending] ++ tail), n, errors⟩ = _
  rw [Reader.exprStmt, current_bind, List.append_assoc,
    List.singleton_append, bind_of_ok hread, Reader.ending,
    expect_cons hend (by decide)]
  rfl

/-- A `print` with its expression. -/
private theorem accepted_print {word ending : Token}
    (hword : word.kind = .kwPrint)
    (h : Accepted n ts (.expr .assignment e) n')
    (hend : ending.kind = .semicolon) :
    Accepted n (word :: (ts ++ [ending]))
      (.stmt false (.print ⟨n', word.pos⟩ e)) (n' + 1) := by
  intro budget tail errors hbudget _
  simp only [List.length_cons, List.length_append, Phrase.steps] at hbudget
  obtain ⟨budget, rfl⟩ := Nat.exists_eq_add_one_of_ne_zero
    (show budget ≠ 0 by omega)
  show statement _ ⟨word :: (ts ++ [ending] ++ tail), n, errors⟩ = _
  rw [statement, kind_mk, kindAt_cons]
  simp only [hword]
  rw [printStmt, take_cons (by simp [hword]), List.append_assoc,
    List.singleton_append,
    bind_of_ok (h.before hend stopsExpr_semicolon (by omega)),
    Reader.ending, expect_cons hend (by decide)]
  rfl

/-- A `return`, where a semicolon right behind the word shows that there is no
value. -/
private theorem accepted_ret {word ending : Token} {e : Option Expr}
    (hword : word.kind = .kwReturn)
    (hspells : Spells n ts (.maybe e) n')
    (h : Accepted n ts (.maybe e) n')
    (hend : ending.kind = .semicolon) :
    Accepted n (word :: (ts ++ [ending]))
      (.stmt false (.ret ⟨n', word.pos⟩ e)) (n' + 1) := by
  intro budget tail errors hbudget _
  simp only [List.length_cons, List.length_append, Phrase.steps] at hbudget
  obtain ⟨budget, rfl⟩ := Nat.exists_eq_add_one_of_ne_zero
    (show budget ≠ 0 by omega)
  show statement _ ⟨word :: (ts ++ [ending] ++ tail), n, errors⟩ = _
  rw [statement, kind_mk, kindAt_cons]
  simp only [hword]
  rw [retStmt, take_cons (by simp [hword]), List.append_assoc,
    List.singleton_append, kind_mk, run_ite]
  cases e with
  | none =>
    cases hspells
    rw [List.nil_append, if_pos (by exact hend), pure_bind]
    exact expect_cons hend (by decide)
  | some e =>
    -- A value does not begin with a semicolon.
    have hfirst : kindAt (ts ++ ending :: tail) ≠ .semicolon := by
      intro hkind
      have := kindAt_of_begins hspells rfl (ending :: tail)
      rw [hkind] at this
      cases this
    have hread : (some <$> expression budget)
        ⟨ts ++ ending :: tail, n, errors⟩
        = .ok (some e) ⟨ending :: tail, n', errors⟩ :=
      map_eq_ok.2 ⟨e, h budget _ errors
        (by simp only [Phrase.steps]; omega)
        (by rw [kindAt_cons, hend]; exact stopsExpr_semicolon) e rfl, rfl⟩
    rw [if_neg hfirst, bind_of_ok hread]
    exact expect_cons hend (by decide)

-- ======================================================== for, in parts

/-- A first clause that is missing is its semicolon. -/
private theorem accepted_noClause {ending : Token}
    (hend : ending.kind = .semicolon) :
    Accepted n [ending] (.clause none) n := by
  intro budget tail errors _ _
  show forInit _ _ = _
  rw [forInit, List.singleton_append, takeIf_cons hend (by decide)]
  rfl

/-- A first clause that declares a variable brings its own semicolon. -/
private theorem accepted_varClause {s : Stmt}
    (hspells : Spells n ts (.varDecl s) n')
    (h : Accepted n ts (.varDecl s) n') :
    Accepted n ts (.clause (some s)) n' := by
  intro budget tail errors hbudget _
  have hread : Reader.varDecl budget ⟨ts ++ tail, n, errors⟩
      = .ok s ⟨tail, n', errors⟩ := h budget tail errors hbudget trivial
  have hword : kindAt (ts ++ tail) = .kwVar := by
    simpa [Phrase.begins] using kindAt_of_begins hspells rfl tail
  show forInit _ _ = _
  rw [forInit, takeIf_of_ne (by simp [hword])]
  simp only [Bool.false_eq_true, ↓reduceIte]
  rw [kind_mk, if_pos hword, bind_of_ok hread]
  rfl

/-- So does one that is an expression. -/
private theorem accepted_exprClause {s : Stmt}
    (hspells : Spells n ts (.exprStmt s) n')
    (h : Accepted n ts (.exprStmt s) n') :
    Accepted n ts (.clause (some s)) n' := by
  intro budget tail errors hbudget _
  have hread : Reader.exprStmt budget ⟨ts ++ tail, n, errors⟩
      = .ok s ⟨tail, n', errors⟩ := h budget tail errors hbudget trivial
  have hbegins := kindAt_of_begins hspells rfl tail
  have hend : kindAt (ts ++ tail) ≠ .semicolon := by
    intro hkind
    rw [hkind] at hbegins
    cases hbegins
  have hword : kindAt (ts ++ tail) ≠ .kwVar := by
    intro hkind
    rw [hkind] at hbegins
    cases hbegins
  show forInit _ _ = _
  rw [forInit, takeIf_of_ne hend]
  simp only [Bool.false_eq_true, ↓reduceIte]
  rw [kind_mk, if_neg hword, bind_of_ok hread]
  rfl

/-- A second clause that is missing is its semicolon, and is read as a literal
there. -/
private theorem accepted_noTest {ending : Token}
    (hend : ending.kind = .semicolon) :
    Accepted n [ending] (.test (.literal ⟨n, ending.pos⟩ (.bool true)))
      (n + 1) := by
  intro budget tail errors _ _
  refine ⟨ending, hend, ?_⟩
  rw [forTest, current_bind, run_ite, if_pos (by exact hend)]
  rfl

/-- A second clause that is there has the semicolon behind it. -/
private theorem accepted_someTest {ending : Token}
    (hspells : Spells n ts (.expr .assignment e) n')
    (h : Accepted n ts (.expr .assignment e) n')
    (hend : ending.kind = .semicolon) :
    Accepted n (ts ++ [ending]) (.test e) n' := by
  intro budget tail errors hbudget _
  simp only [List.length_append, List.length_singleton, Phrase.steps]
    at hbudget
  have hfirst : (Cursor.mk (ts ++ ending :: tail) n errors).current.kind
      ≠ .semicolon := by
    intro hkind
    have := kindAt_of_begins hspells rfl (ending :: tail)
    rw [← kind_current, hkind] at this
    cases this
  refine ⟨ending, hend, ?_⟩
  rw [List.append_assoc, List.singleton_append, forTest, current_bind,
    run_ite, if_neg hfirst]
  exact h.before hend stopsExpr_semicolon (by omega)

/-- The third clause of a `for`, before the closing parenthesis. -/
private theorem Accepted.forStep {step : Option Expr}
    (hspells : Spells n ts (.maybe step) n')
    (h : Accepted n ts (.maybe step) n') {budget : Nat} {closing : Token}
    {tail : List Token} {errors : List SyntaxError}
    (hclose : closing.kind = .rightParen)
    (hbudget : 32 * ts.length + 15 ≤ budget) :
    Reader.forStep budget ⟨ts ++ closing :: tail, n, errors⟩
      = .ok step ⟨closing :: tail, n', errors⟩ := by
  rw [Reader.forStep, kind_mk, run_ite]
  cases step with
  | none =>
    cases hspells
    rw [List.nil_append, if_pos (by exact hclose)]
    rfl
  | some e =>
    -- A clause does not begin with the parenthesis that closes.
    have hfirst : kindAt (ts ++ closing :: tail) ≠ .rightParen := by
      intro hkind
      have := kindAt_of_begins hspells rfl (closing :: tail)
      rw [hkind] at this
      cases this
    have hread : expression budget ⟨ts ++ closing :: tail, n, errors⟩
        = .ok e ⟨closing :: tail, n', errors⟩ :=
      h budget (closing :: tail) errors hbudget
        (by rw [kindAt_cons, hclose]; exact stopsExpr_rightParen) e rfl
    rw [if_neg hfirst, bind_of_ok hread]
    rfl

end Simple

-- ==================================================== nested statements

section Nested

variable {n n' n₁ n₂ n₃ n₄ : Nat} {ts ts' ts₁ ts₂ ts₃ ts₄ : List Token}
  {isOpen : Bool} {s : Stmt} {word opening closing : Token}

/-- Declarations in braces end before the closing brace: what reads them looks
for it. -/
private theorem accepted_braced {body : List Stmt}
    (hopen : opening.kind = .leftBrace)
    (h : Accepted n ts (.decls body) n')
    (hclose : closing.kind = .rightBrace) :
    Accepted n (opening :: (ts ++ [closing]))
      (.braced ⟨n', opening.pos⟩ body) (n' + 1) := by
  intro budget tail errors hbudget _
  simp only [List.length_cons, List.length_append, Phrase.steps] at hbudget
  obtain ⟨budget, rfl⟩ := Nat.exists_eq_add_one_of_ne_zero
    (show budget ≠ 0 by omega)
  have hbody : declarations endsBlock budget
      ⟨ts ++ closing :: tail, n, errors⟩
      = .ok body ⟨closing :: tail, n', errors⟩ :=
    h budget (closing :: tail) errors (by simp only [Phrase.steps]; omega)
      (by simp [Phrase.StopsAt, hclose]) endsBlock
      (by intro kind hkind; cases kind <;> first | rfl | cases hkind)
      (by rw [kind_current, kindAt_cons, hclose]; rfl)
  show braced _ ⟨opening :: (ts ++ [closing] ++ tail), n, errors⟩ = _
  rw [braced, take_cons (by simp [hopen]), List.append_assoc,
    List.singleton_append, bind_of_ok hbody, takeIf_cons hclose (by decide)]
  rfl

/-- A statement that begins as no other does is an expression. -/
private theorem accepted_expression
    (hspells : Spells n ts (.exprStmt s) n')
    (h : Accepted n ts (.exprStmt s) n') :
    Accepted n ts (.stmt false s) n' := by
  intro budget tail errors hbudget _
  simp only [Phrase.steps] at hbudget
  obtain ⟨budget, rfl⟩ := Nat.exists_eq_add_one_of_ne_zero
    (show budget ≠ 0 by omega)
  have hread : exprStmt budget ⟨ts ++ tail, n, errors⟩
      = .ok s ⟨tail, n', errors⟩ :=
    h budget tail errors (by simp only [Phrase.steps]; omega) trivial
  have hbegins : (kindAt (ts ++ tail)).beginsExpr = true :=
    kindAt_of_begins hspells rfl tail
  show statement _ _ = _
  rw [statement, kind_mk]
  cases hkind : kindAt (ts ++ tail) <;> rw [hkind] at hbegins <;>
    first | exact hread | cases hbegins

/-- A statement that begins with a brace is a block. -/
private theorem accepted_block {node : Node} {body : List Stmt}
    (hspells : Spells n ts (.braced node body) n')
    (h : Accepted n ts (.braced node body) n') :
    Accepted n ts (.stmt false (.block node body)) n' := by
  intro budget tail errors hbudget _
  simp only [Phrase.steps] at hbudget
  obtain ⟨budget, rfl⟩ := Nat.exists_eq_add_one_of_ne_zero
    (show budget ≠ 0 by omega)
  have hread : braced budget ⟨ts ++ tail, n, errors⟩
      = .ok (node, body) ⟨tail, n', errors⟩ :=
    h budget tail errors (by simp only [Phrase.steps]; omega) trivial
  have hbrace : kindAt (ts ++ tail) = .leftBrace := by
    simpa [Phrase.begins] using kindAt_of_begins hspells rfl tail
  show statement _ _ = _
  rw [statement, kind_mk]
  simp only [hbrace]
  rw [bind_of_ok hread]
  rfl

/-- An `if` without `else` is open: nothing behind it may be an `else`, or
that would be taken for its own. -/
private theorem accepted_cond {test : Expr} {yes : Stmt}
    (hword : word.kind = .kwIf) (hopen : opening.kind = .leftParen)
    (htest : Accepted n ts (.expr .assignment test) n₁)
    (hclose : closing.kind = .rightParen)
    (hyes : Accepted n₁ ts' (.stmt isOpen yes) n₂) :
    Accepted n (word :: opening :: (ts ++ closing :: ts'))
      (.stmt true (.cond ⟨n₂, word.pos⟩ test yes none)) (n₂ + 1) := by
  intro budget tail errors hbudget hstop
  simp only [List.length_cons, List.length_append, Phrase.steps] at hbudget
  obtain ⟨budget, rfl⟩ : ∃ b, budget = b + 1 + 1 := ⟨budget - 2, by omega⟩
  have hother : kindAt tail ≠ .kwElse := hstop rfl
  have hread : statement budget ⟨ts' ++ tail, n₁, errors⟩
      = .ok yes ⟨tail, n₂, errors⟩ :=
    hyes budget tail errors (by simp only [Phrase.steps]; omega)
      (fun _ => hother)
  show statement _
    ⟨word :: opening :: (ts ++ closing :: ts' ++ tail), n, errors⟩ = _
  rw [statement, kind_mk, kindAt_cons]
  simp only [hword]
  rw [condStmt, take_cons (by simp [hword]), expect_cons hopen (by decide),
    List.append_assoc, List.cons_append,
    bind_of_ok (htest.before hclose stopsExpr_rightParen (by omega)),
    expect_cons hclose (by decide), bind_of_ok hread, takeIf_of_ne hother]
  rfl

/-- An `if` with `else`: the first branch is closed, so the `else` behind it
is not taken for a part of it. -/
private theorem accepted_condElse {other : Token} {test : Expr}
    {yes no : Stmt} (hword : word.kind = .kwIf)
    (hopen : opening.kind = .leftParen)
    (htest : Accepted n ts₁ (.expr .assignment test) n₁)
    (hclose : closing.kind = .rightParen)
    (hyes : Accepted n₁ ts₂ (.stmt false yes) n₂)
    (hother : other.kind = .kwElse)
    (hno : Accepted n₂ ts₃ (.stmt isOpen no) n₃) :
    Accepted n
      (word :: opening :: (ts₁ ++ closing :: (ts₂ ++ other :: ts₃)))
      (.stmt isOpen (.cond ⟨n₃, word.pos⟩ test yes (some no)))
      (n₃ + 1) := by
  intro budget tail errors hbudget hstop
  simp only [List.length_cons, List.length_append, Phrase.steps] at hbudget
  obtain ⟨budget, rfl⟩ : ∃ b, budget = b + 1 + 1 := ⟨budget - 2, by omega⟩
  have hyes : statement budget ⟨ts₂ ++ other :: (ts₃ ++ tail), n₁, errors⟩
      = .ok yes ⟨other :: (ts₃ ++ tail), n₂, errors⟩ :=
    hyes budget _ errors (by simp only [Phrase.steps]; omega) nofun
  have hno : (some <$> statement budget) ⟨ts₃ ++ tail, n₂, errors⟩
      = .ok (some no) ⟨tail, n₃, errors⟩ :=
    map_eq_ok.2 ⟨no, hno budget tail errors
      (by simp only [Phrase.steps]; omega) hstop, rfl⟩
  show statement _ ⟨word :: opening ::
    (ts₁ ++ closing :: (ts₂ ++ other :: ts₃) ++ tail), n, errors⟩ = _
  rw [statement, kind_mk, kindAt_cons]
  simp only [hword]
  rw [condStmt, take_cons (by simp [hword]), expect_cons hopen (by decide),
    List.append_assoc, List.cons_append, List.append_assoc,
    List.cons_append,
    bind_of_ok (htest.before hclose stopsExpr_rightParen (by omega)),
    expect_cons hclose (by decide), bind_of_ok hyes,
    takeIf_cons hother (by decide)]
  simp only [↓reduceIte]
  rw [bind_of_ok hno]
  rfl

/-- A `while` is open where its body is. -/
private theorem accepted_loop {test : Expr} {body : Stmt}
    (hword : word.kind = .kwWhile) (hopen : opening.kind = .leftParen)
    (htest : Accepted n ts (.expr .assignment test) n₁)
    (hclose : closing.kind = .rightParen)
    (hbody : Accepted n₁ ts' (.stmt isOpen body) n₂) :
    Accepted n (word :: opening :: (ts ++ closing :: ts'))
      (.stmt isOpen (.loop ⟨n₂, word.pos⟩ test body)) (n₂ + 1) := by
  intro budget tail errors hbudget hstop
  simp only [List.length_cons, List.length_append, Phrase.steps] at hbudget
  obtain ⟨budget, rfl⟩ : ∃ b, budget = b + 1 + 1 := ⟨budget - 2, by omega⟩
  have hread : statement budget ⟨ts' ++ tail, n₁, errors⟩
      = .ok body ⟨tail, n₂, errors⟩ :=
    hbody budget tail errors (by simp only [Phrase.steps]; omega) hstop
  show statement _
    ⟨word :: opening :: (ts ++ closing :: ts' ++ tail), n, errors⟩ = _
  rw [statement, kind_mk, kindAt_cons]
  simp only [hword]
  rw [loopStmt, take_cons (by simp [hword]), expect_cons hopen (by decide),
    List.append_assoc, List.cons_append,
    bind_of_ok (htest.before hclose stopsExpr_rightParen (by omega)),
    expect_cons hclose (by decide), bind_of_ok hread]
  rfl

/-- A `for` is read clause by clause, and what it stands for is made up of
them behind the body. -/
private theorem accepted_forLoop {first : Option Stmt} {test : Expr}
    {step : Option Expr} {body : Stmt} (hword : word.kind = .kwFor)
    (hopen : opening.kind = .leftParen)
    (hfirst : Accepted n ts₁ (.clause first) n₁)
    (htest : Accepted n₁ ts₂ (.test test) n₂)
    (hspells : Spells n₂ ts₃ (.maybe step) n₃)
    (hstep : Accepted n₂ ts₃ (.maybe step) n₃)
    (hclose : closing.kind = .rightParen)
    (hbody : Accepted n₃ ts₄ (.stmt isOpen body) n₄) :
    Accepted n
      (word :: opening :: (ts₁ ++ (ts₂ ++ (ts₃ ++ closing :: ts₄))))
      (.stmt isOpen (forTree word.pos first test step body n₄).1)
      (forTree word.pos first test step body n₄).2 := by
  intro budget tail errors hbudget hstop
  simp only [List.length_cons, List.length_append, Phrase.steps] at hbudget
  obtain ⟨budget, rfl⟩ : ∃ b, budget = b + 1 + 1 := ⟨budget - 2, by omega⟩
  have hfirst : forInit budget
      ⟨ts₁ ++ (ts₂ ++ (ts₃ ++ closing :: (ts₄ ++ tail))), n, errors⟩
      = .ok first
          ⟨ts₂ ++ (ts₃ ++ closing :: (ts₄ ++ tail)), n₁, errors⟩ :=
    hfirst budget _ errors (by simp only [Phrase.steps]; omega) trivial
  obtain ⟨ending, hend, htest⟩ := htest budget
    (ts₃ ++ closing :: (ts₄ ++ tail)) errors
    (by simp only [Phrase.steps]; omega) trivial
  have hread : statement budget ⟨ts₄ ++ tail, n₃, errors⟩
      = .ok body ⟨tail, n₄, errors⟩ :=
    hbody budget tail errors (by simp only [Phrase.steps]; omega) hstop
  show statement _ ⟨word :: opening ::
    (ts₁ ++ (ts₂ ++ (ts₃ ++ closing :: ts₄)) ++ tail), n, errors⟩ = _
  rw [statement, kind_mk, kindAt_cons]
  simp only [hword]
  rw [forStmt, take_cons (by simp [hword]), expect_cons hopen (by decide),
    List.append_assoc, List.append_assoc, List.append_assoc,
    List.cons_append, bind_of_ok hfirst, bind_of_ok htest, Reader.ending,
    expect_cons hend (by decide),
    bind_of_ok (hstep.forStep hspells hclose (by omega)),
    expect_cons hclose (by decide), bind_of_ok hread, run_forTree]

/-- A declaration that begins with `var` declares a variable. -/
private theorem accepted_variable
    (hspells : Spells n ts (.varDecl s) n')
    (h : Accepted n ts (.varDecl s) n') : Accepted n ts (.decl s) n' := by
  intro budget tail errors hbudget _
  simp only [Phrase.steps] at hbudget
  obtain ⟨budget, rfl⟩ := Nat.exists_eq_add_one_of_ne_zero
    (show budget ≠ 0 by omega)
  have hread : varDecl budget ⟨ts ++ tail, n, errors⟩
      = .ok s ⟨tail, n', errors⟩ :=
    h budget tail errors (by simp only [Phrase.steps]; omega) trivial
  have hword : kindAt (ts ++ tail) = .kwVar := by
    simpa [Phrase.begins] using kindAt_of_begins hspells rfl tail
  show declaration _ _ = _
  rw [declaration, recovering, kind_mk]
  simp only [hword, hread]

/-- A declaration that begins with no word of its own is a statement. -/
private theorem accepted_statement
    (hspells : Spells n ts (.stmt isOpen s) n')
    (h : Accepted n ts (.stmt isOpen s) n') :
    Accepted n ts (.decl s) n' := by
  intro budget tail errors hbudget hstop
  simp only [Phrase.steps] at hbudget
  obtain ⟨budget, rfl⟩ := Nat.exists_eq_add_one_of_ne_zero
    (show budget ≠ 0 by omega)
  have hread : statement budget ⟨ts ++ tail, n, errors⟩
      = .ok s ⟨tail, n', errors⟩ :=
    h budget tail errors (by simp only [Phrase.steps]; omega)
      (fun _ => hstop)
  have hbegins : (kindAt (ts ++ tail)).beginsStmt = true :=
    kindAt_of_begins hspells rfl tail
  show declaration _ _ = _
  rw [declaration, recovering, kind_mk]
  -- All words that begin a statement are dispatched alike.
  cases hkind : kindAt (ts ++ tail) <;> rw [hkind] at hbegins <;>
    first | (simp only [hread]; done) | cases hbegins

/-- A function, with an identity for the list of its parameters between those
of its parts and its own. -/
private theorem accepted_function {t : Token} {params : List Name}
    {bodyNode : Node} {body : List Stmt} (hword : word.kind = .kwFun)
    (hname : t.kind = .identifier) (hopen : opening.kind = .leftParen)
    (hspells : Spells n ts (.params params) n₁)
    (hparams : Accepted n ts (.params params) n₁)
    (hclose : closing.kind = .rightParen)
    (hspells' : Spells n₁ ts' (.braced bodyNode body) n₂)
    (hbody : Accepted n₁ ts' (.braced bodyNode body) n₂) :
    Accepted n (word :: t :: opening :: (ts ++ closing :: ts'))
      (.decl (.funDecl ⟨n₂ + 1, word.pos⟩ ⟨t.lexeme, t.pos⟩ n₂ params
        bodyNode body))
      (n₂ + 2) := by
  intro budget tail errors hbudget _
  simp only [List.length_cons, List.length_append, Phrase.steps] at hbudget
  obtain ⟨budget, rfl⟩ : ∃ b, budget = b + 1 + 1 := ⟨budget - 2, by omega⟩
  have hbody : braced budget ⟨ts' ++ tail, n₁, errors⟩
      = .ok (bodyNode, body) ⟨tail, n₂, errors⟩ :=
    hbody budget tail errors (by simp only [Phrase.steps]; omega) trivial
  have hbrace : (Cursor.mk (ts' ++ tail) n₁ errors).current.kind
      = .leftBrace := by
    rw [kind_current]
    simpa [Phrase.begins] using kindAt_of_begins hspells' rfl tail
  have hrest : functionRest budget word t params
      ⟨closing :: (ts' ++ tail), n₁, errors⟩
      = .ok (.funDecl ⟨n₂ + 1, word.pos⟩ ⟨t.lexeme, t.pos⟩ n₂ params
          bodyNode body) ⟨tail, n₂ + 2, errors⟩ := by
    rw [functionRest, expect_cons hclose (by decide), current_bind,
      run_ite, if_pos hbrace, bind_of_ok hbody]
    rfl
  have hread : funDecl (budget + 1)
      ⟨word :: t :: opening :: (ts ++ closing :: (ts' ++ tail)), n, errors⟩
      = .ok (.funDecl ⟨n₂ + 1, word.pos⟩ ⟨t.lexeme, t.pos⟩ n₂ params
          bodyNode body) ⟨tail, n₂ + 2, errors⟩ := by
    rw [funDecl_succ, take_cons (by simp [hword]),
      expect_cons hname (by decide), expect_cons hopen (by decide), kind_mk,
      run_ite]
    cases params with
    | nil =>
      cases hspells
      rw [List.nil_append, if_pos (by exact hclose)]
      exact hrest
    | cons name names =>
      have hfirst : kindAt (ts ++ closing :: (ts' ++ tail))
          ≠ .rightParen := by
        cases hspells <;> simp_all
      have hnames : parameters budget
          ⟨ts ++ closing :: (ts' ++ tail), n, errors⟩
          = .ok (name :: names) ⟨closing :: (ts' ++ tail), n₁, errors⟩ :=
        hparams budget _ errors (by simp only [Phrase.steps]; omega)
          hclose (by simp)
      rw [if_neg hfirst, bind_of_ok hnames]
      exact hrest
  show declaration _
    ⟨word :: t :: opening :: (ts ++ closing :: ts' ++ tail), n, errors⟩ = _
  rw [declaration, recovering, kind_mk, kindAt_cons, List.append_assoc,
    List.cons_append]
  simp only [hword, hread]

/-- No declarations at all are read where the first token behind them ends
them. -/
private theorem accepted_nil : Accepted n [] (.decls []) n := by
  intro budget tail errors hbudget _ ends _ hends
  simp only [List.length_nil, Phrase.steps] at hbudget
  obtain ⟨budget, rfl⟩ := Nat.exists_eq_add_one_of_ne_zero
    (show budget ≠ 0 by omega)
  rw [kind_current] at hends
  rw [List.nil_append, declarations, kind_mk, if_pos hends]
  rfl

/-- A declaration and others behind it. The first ends where the others begin,
or at the end of all. -/
private theorem accepted_cons {ss : List Stmt}
    (hspells : Spells n ts (.decl s) n₁)
    (hfirst : Accepted n ts (.decl s) n₁)
    (hspells' : Spells n₁ ts' (.decls ss) n₂)
    (hothers : Accepted n₁ ts' (.decls ss) n₂) :
    Accepted n (ts ++ ts') (.decls (s :: ss)) n₂ := by
  intro budget tail errors hbudget hstop ends hbegins hends
  have hpos : 0 < ts.length := by
    obtain ⟨t, rest, rfl, -⟩ := hspells.begins rfl
    exact Nat.zero_lt_succ _
  simp only [List.length_append, Phrase.steps] at hbudget
  obtain ⟨budget, rfl⟩ := Nat.exists_eq_add_one_of_ne_zero
    (show budget ≠ 0 by omega)
  have hmore : ends (kindAt (ts ++ (ts' ++ tail))) ≠ true := by
    intro h
    have hbegin : (kindAt (ts ++ (ts' ++ tail))).beginsDecl = true :=
      kindAt_of_begins hspells rfl (ts' ++ tail)
    rw [hbegins _ h] at hbegin
    cases hbegin
  -- What follows the first declaration is another one, or the end.
  have hother : kindAt (ts' ++ tail) ≠ .kwElse := by
    cases ss with
    | nil =>
      cases hspells'
      exact hstop
    | cons s' ss =>
      intro h
      have hbegin : (kindAt (ts' ++ tail)).beginsDecl = true :=
        kindAt_of_begins hspells' rfl tail
      rw [h] at hbegin
      cases hbegin
  have hread : declaration budget ⟨ts ++ (ts' ++ tail), n, errors⟩
      = .ok (some s) ⟨ts' ++ tail, n₁, errors⟩ :=
    hfirst budget _ errors (by simp only [Phrase.steps]; omega) hother
  have hread' : declarations ends budget ⟨ts' ++ tail, n₁, errors⟩
      = .ok ss ⟨tail, n₂, errors⟩ :=
    hothers budget tail errors (by simp only [Phrase.steps]; omega) hstop
      ends hbegins hends
  rw [List.append_assoc, declarations, kind_mk, if_neg hmore,
    bind_of_ok hread, bind_of_ok hread']
  rfl

end Nested

-- ====================================================== the whole grammar

/-- Whatever is in the grammar is accepted. -/
theorem Spells.accepted {n n' : Nat} {ts : List Token} {p : Phrase}
    (h : Spells n ts p n') : Accepted n ts p n' := by
  -- The induction is on the derivation, with one lemma for each rule.
  induction h with
  | literal hvalue => exact accepted_literal hvalue
  | var hkind => exact accepted_var hkind
  | group hopen _ hclose ih => exact accepted_group hopen ih hclose
  | call _ hopen hs hclose ih₁ ih₂ =>
      exact accepted_call ih₁ hopen hs ih₂ hclose
  | unary hop _ ih => exact accepted_unary hop ih
  | join _ hop hrank _ ih₁ ih₂ => exact accepted_join ih₁ hop hrank ih₂
  | lift hrank hs ih => exact accepted_lift hrank hs ih
  | assign _ hsign _ ih₁ ih₂ => exact accepted_assign ih₁ hsign ih₂
  | noArgs => exact fun _ _ _ _ _ h => absurd rfl h
  | oneArg _ ih => exact accepted_oneArg ih
  | moreArgs _ hcomma _ ih₁ ih₂ => exact accepted_moreArgs ih₁ hcomma ih₂
  | noParams => exact fun _ _ _ _ _ h => absurd rfl h
  | oneParam hkind => exact accepted_oneParam hkind
  | moreParams hkind hcomma _ ih => exact accepted_moreParams hkind hcomma ih
  | absent => exact fun _ _ _ _ _ _ h => by cases h
  | present _ ih =>
      exact fun _ _ _ hbudget hstop _ h => by
        cases h
        exact ih _ _ _ hbudget hstop
  | varDecl hword hname hend => exact accepted_varDecl hword hname hend
  | varInit hword hname hsign _ hend ih =>
      exact accepted_varInit hword hname hsign ih hend
  | exprStmt _ hend ih => exact accepted_exprStmt ih hend
  | noClause hend => exact accepted_noClause hend
  | varClause hs ih => exact accepted_varClause hs ih
  | exprClause hs ih => exact accepted_exprClause hs ih
  | noTest hend => exact accepted_noTest hend
  | someTest hs hend ih => exact accepted_someTest hs ih hend
  | braced hopen _ hclose ih => exact accepted_braced hopen ih hclose
  | expression hs ih => exact accepted_expression hs ih
  | print hword _ hend ih => exact accepted_print hword ih hend
  | ret hword hs hend ih => exact accepted_ret hword hs ih hend
  | block hs ih => exact accepted_block hs ih
  | cond hword hopen _ hclose _ ih₁ ih₂ =>
      exact accepted_cond hword hopen ih₁ hclose ih₂
  | condElse hword hopen _ hclose _ hother _ ih₁ ih₂ ih₃ =>
      exact accepted_condElse hword hopen ih₁ hclose ih₂ hother ih₃
  | loop hword hopen _ hclose _ ih₁ ih₂ =>
      exact accepted_loop hword hopen ih₁ hclose ih₂
  | forLoop hword hopen _ _ hs hclose _ ih₁ ih₂ ih₃ ih₄ =>
      exact accepted_forLoop hword hopen ih₁ ih₂ hs ih₃ hclose ih₄
  | «variable» hs ih => exact accepted_variable hs ih
  | function hword hname hopen hs hclose hs' ih₁ ih₂ =>
      exact accepted_function hword hname hopen hs ih₁ hclose hs' ih₂
  | statement hs ih => exact accepted_statement hs ih
  | nil => exact accepted_nil
  | cons hs hs' ih₁ ih₂ => exact accepted_cons hs ih₁ hs' ih₂

end Lox
