/-
A `for` taken apart. A `for` is no tree of its own: its tokens spell the
blocks and the `while` that it stands for, and these can be spelled with
tokens of their own, in which the word `for` does not occur
(`ForLoop.apart`). Both spell the same statement up to the numbers and
places of its nodes (`ForLoop.spells_apart`), and with the same numbers
left for what follows, for there are as many nodes in the one as in the
other.

# Why the parts are numbered anew

The third clause stands before the body in the one spelling and behind
it in the other, and nodes are numbered in the order of their tokens. So
each of the two is spelled from another number on (`Spells.renumber`).
-/
import Lox.Proofs.Reading.Relocated
import Lox.Proofs.Reading.Rendering

namespace Lox

-- ============================================================ renumbering

theorem Token.moved_id (ts : List Token) : ts.map (·.moved id) = ts :=
  List.map_id ts

/-- Numbered from any other number on, the tokens spell the same. -/
theorem Spells.renumber {n n' : Nat} {ts : List Token} {p : Phrase}
    (h : Spells n ts p n') (k : Nat) :
    Spells k ts (p.relocate id (.renumber fun i => i - n + k))
      (n' - n + k) := by
  have hreplaces : Replaces id (.renumber fun i => i - n + k)
      (fun i => i - n + k) n :=
    ⟨fun _ _ _ => rfl, fun i hi => by omega⟩
  have hs := h.replace hreplaces
  rw [Token.moved_id, Nat.sub_self, Nat.zero_add] at hs
  exact hs

/-- A tree without its node numbers does not notice a renumbering. -/
theorem Expr.bare_renumber (r : Nat → Nat) (e : Expr) :
    (e.mapNodes (.renumber r)).bare = e.bare :=
  e.mapNodes_renumber _ r

theorem Stmt.bare_renumber (r : Nat → Nat) (s : Stmt) :
    (s.mapNodes (.renumber r)).bare = s.bare :=
  s.mapNodes_renumber _ r

-- =============================================================== the loop

/-- The second clause, where a missing one says that the loop goes on for
ever. -/
def Expr.orTrue (node : Node) (test : Option Expr) : Expr :=
  test.getD (.literal node (.bool true))

/-- The number behind the second clause, where a missing one takes one
too. -/
def Expr.behindTest (n : Nat) : Option Expr → Nat
  | none => n + 1
  | some _ => n

/-- A statement that begins with `for`: its tokens, and what they
spell. -/
structure ForLoop where
  word : Token
  opening : Token
  /-- The first clause, with its semicolon. -/
  firstTokens : List Token
  first : Option Stmt
  testTokens : List Token
  test : Option Expr
  /-- The second semicolon. -/
  ending : Token
  stepTokens : List Token
  step : Option Expr
  closing : Token
  bodyTokens : List Token
  /-- Whether an `else` behind the body would be a part of it. -/
  isOpen : Bool
  body : Stmt
  start : Nat
  firstEnd : Nat
  testEnd : Nat
  stepEnd : Nat
  bodyEnd : Nat
  word_kind : word.kind = .kwFor
  opening_kind : opening.kind = .leftParen
  first_spelled : Spells start firstTokens (.clause first) firstEnd
  test_spelled : Spells firstEnd testTokens (.maybe test) testEnd
  ending_kind : ending.kind = .semicolon
  step_spelled : Spells (Expr.behindTest testEnd test) stepTokens
    (.maybe step) stepEnd
  closing_kind : closing.kind = .rightParen
  body_spelled : Spells stepEnd bodyTokens (.stmt isOpen body) bodyEnd

section Clauses

variable {n n' : Nat} {ts : List Token}

/-- An absent clause is spelled by no token and counts no node. -/
theorem Spells.maybe_none (h : Spells n ts (.maybe none) n') :
    ts = [] ∧ n' = n := by
  cases h
  exact ⟨rfl, rfl⟩

/-- A clause that is there is spelled as its expression is. -/
theorem Spells.maybe_some {e : Expr} (h : Spells n ts (.maybe (some e)) n') :
    Spells n ts (.expr .assignment e) n' := by
  cases h with
  | present h => exact h

/-- An expression and a semicolon are a statement, placed at its first
token. -/
theorem Spells.ended {e : Expr} (h : Spells n ts (.expr .assignment e) n')
    {ending : Token} (hending : ending.kind = .semicolon) :
    ∃ pos, Spells n (ts ++ [ending]) (.exprStmt (.expr ⟨n', pos⟩ e))
      (n' + 1) := by
  obtain ⟨first, rest, rfl, -⟩ := h.begins rfl
  exact ⟨_, .exprStmt h hending⟩

theorem Spells.clause_none (h : Spells n ts (.clause none) n') : n' = n := by
  cases h
  rfl

/-- The first clause is a declaration like any other. -/
theorem Spells.clause_some {first : Stmt}
    (h : Spells n ts (.clause (some first)) n') :
    Spells n ts (.decl first) n' := by
  cases h with
  | varClause h => exact .variable h
  | exprClause h => exact .statement (.expression h)

/-- The second clause and its semicolon are an expression, or missing. -/
theorem Spells.test_cases {e : Expr} (h : Spells n ts (.test e) n') :
    ∃ test testTokens ending m, ts = testTokens ++ [ending] ∧
      ending.kind = .semicolon ∧ Spells n testTokens (.maybe test) m ∧
      n' = Expr.behindTest m test ∧ e = Expr.orTrue ⟨n, ending.pos⟩ test := by
  cases h with
  | noTest hending => exact ⟨none, [], _, n, rfl, hending, .absent, rfl, rfl⟩
  | someTest hs hending =>
    exact ⟨some e, _, _, n', rfl, hending, .present hs, rfl, rfl⟩

end Clauses

namespace ForLoop

variable (l : ForLoop)

/-- The tokens behind the word `for`. -/
def behindWord : List Token :=
  l.opening :: (l.firstTokens ++ (l.testTokens ++
    l.ending :: (l.stepTokens ++ l.closing :: l.bodyTokens)))

/-- The tokens of the loop. -/
def tokens : List Token := l.word :: l.behindWord

/-- The second clause that the tree has. -/
def testTree : Expr := Expr.orTrue ⟨l.firstEnd, l.ending.pos⟩ l.test

/-- The statement that the loop stands for. -/
def tree : Stmt :=
  (forTree l.word.pos l.first l.testTree l.step l.body l.bodyEnd).1

/-- The number behind the loop. -/
def stop : Nat :=
  (forTree l.word.pos l.first l.testTree l.step l.body l.bodyEnd).2

/-- The test is spelled with the semicolon behind it. An absent test is the
literal `true`, placed at that semicolon. -/
theorem test_phrase :
    Spells l.firstEnd (l.testTokens ++ [l.ending]) (.test l.testTree)
      (Expr.behindTest l.testEnd l.test) := by
  have hs := l.test_spelled
  unfold testTree
  cases htest : l.test with
  | none =>
    rw [htest] at hs
    obtain ⟨htokens, hend⟩ := hs.maybe_none
    rw [htokens, hend]
    exact .noTest l.ending_kind
  | some e =>
    rw [htest] at hs
    exact .someTest hs.maybe_some l.ending_kind

/-- The tokens of a loop spell its tree: the reader takes a loop written this
way and counts the nodes as the tree has them. -/
theorem spells :
    Spells l.start l.tokens (.stmt l.isOpen l.tree) l.stop := by
  have hs := Spells.forLoop l.word_kind l.opening_kind l.first_spelled
    l.test_phrase l.step_spelled l.closing_kind l.body_spelled
  simp only [List.append_assoc, List.singleton_append] at hs
  exact hs

end ForLoop

-- ============================================================ taken apart

/-- The token of a kind that is always spelled alike. -/
def TokenKind.token (kind : TokenKind) (pos : Position) : Token :=
  ⟨kind, kind.spelling, pos⟩

theorem TokenKind.kind_token (kind : TokenKind) (pos : Position) :
    (kind.token pos).kind = kind := rfl

namespace ForLoop

variable (l : ForLoop)

/-- The tokens of the test: a missing one is spelled `true`. -/
def testApart : List Token :=
  match l.test with
  | none => [TokenKind.kwTrue.token l.word.pos]
  | some _ => l.testTokens

/-- The tokens of the body, with the third clause behind it as a
statement. -/
def bodyApart : List Token :=
  match l.step with
  | none => l.bodyTokens
  | some _ =>
      TokenKind.leftBrace.token l.word.pos :: (l.bodyTokens ++
        (l.stepTokens ++ [TokenKind.semicolon.token l.word.pos] ++
          [TokenKind.rightBrace.token l.word.pos]))

/-- The tokens of the `while`. -/
def whileApart : List Token :=
  TokenKind.kwWhile.token l.word.pos ::
    TokenKind.leftParen.token l.word.pos :: (l.testApart ++
      TokenKind.rightParen.token l.word.pos :: l.bodyApart)

/-- The tokens of the blocks and the `while` that the loop stands for. -/
def apart : List Token :=
  match l.first with
  | none => l.whileApart
  | some _ =>
      TokenKind.leftBrace.token l.word.pos :: (l.firstTokens ++
        l.whileApart ++ [TokenKind.rightBrace.token l.word.pos])

/-- Whether an `else` behind the body, taken apart, would be a part of
it. -/
def bodyOpen : Bool := l.step.isNone && l.isOpen

/-- Whether an `else` behind the loop, taken apart, would be a part of
it. -/
def apartOpen : Bool := l.first.isNone && l.bodyOpen

/-- The loop is open to an `else` if the statement it is taken apart into
is. -/
theorem isOpen_of_apartOpen (h : l.apartOpen = true) : l.isOpen = true := by
  unfold apartOpen bodyOpen at h
  rw [Bool.and_eq_true, Bool.and_eq_true] at h
  exact h.2.2

/-- Taken apart, the test is spelled as a `while` has it, and an absent one is
the word `true`. The trees agree apart from their node numbers. -/
theorem spells_testApart :
    ∃ test, Spells l.firstEnd l.testApart (.expr .assignment test)
        (Expr.behindTest l.testEnd l.test) ∧
      test.bare = l.testTree.bare := by
  have hs := l.test_spelled
  unfold testApart testTree
  cases htest : l.test with
  | none =>
    rw [htest] at hs
    rw [hs.maybe_none.2]
    have hvalue : Literal.ofToken? (TokenKind.kwTrue.token l.word.pos)
        = some (.bool true) := rfl
    exact ⟨_, Spells.loosen (.literal hvalue) _ (Nat.zero_le _), rfl⟩
  | some e =>
    rw [htest] at hs
    exact ⟨e, hs.maybe_some, rfl⟩

/-- Behind the test, the body and then the third clause take as many
numbers as they do the other way round. -/
theorem spells_bodyApart (pos : Position) :
    ∃ body, Spells (Expr.behindTest l.testEnd l.test) l.bodyApart
        (.stmt l.bodyOpen body) (forBodyTree pos l.step l.body l.bodyEnd).2 ∧
      body.bare = (forBodyTree pos l.step l.body l.bodyEnd).1.bare := by
  have hs := l.step_spelled
  have hbody := l.body_spelled
  have hle := hbody.numbered.le
  unfold bodyApart bodyOpen
  cases hstep : l.step with
  | none =>
    rw [hstep] at hs
    rw [hs.maybe_none.2] at hbody
    exact ⟨l.body, hbody, rfl⟩
  | some e =>
    rw [hstep] at hs
    replace hs := hs.maybe_some
    generalize Expr.behindTest l.testEnd l.test = n at hs ⊢
    have hle' := hs.numbered.le
    -- The body is numbered first, and the clause behind it.
    have hend : l.stepEnd - n + (l.bodyEnd - l.stepEnd + n) = l.bodyEnd := by
      omega
    have hbody' := hbody.renumber n
    have hs' := hs.renumber (l.bodyEnd - l.stepEnd + n)
    rw [hend] at hs'
    obtain ⟨_, hstmt⟩ := hs'.ended
      (TokenKind.kind_token .semicolon l.word.pos)
    have hdecls := Spells.cons (.statement hbody')
      (.cons (.statement (.expression hstmt)) .nil)
    have hbraced := Spells.braced
      (TokenKind.kind_token .leftBrace l.word.pos) hdecls
      (TokenKind.kind_token .rightBrace l.word.pos)
    rw [List.append_nil, List.append_assoc] at hbraced
    refine ⟨_, .block hbraced, ?_⟩
    simp only [forBodyTree, Stmt.mapNodes, Stmt.mapAll,
      Stmt.bare_renumber, Expr.bare_renumber]

/-- The tokens of the loop taken apart spell what the loop does, and take
as many numbers. -/
theorem spells_apart :
    ∃ s, Spells l.start l.apart (.stmt l.apartOpen s) l.stop ∧
      s.bare = l.tree.bare := by
  obtain ⟨test, htest, htestBare⟩ := l.spells_testApart
  obtain ⟨body, hbody, hbodyBare⟩ := l.spells_bodyApart l.word.pos
  have hloop := Spells.loop
    (TokenKind.kind_token .kwWhile l.word.pos)
    (TokenKind.kind_token .leftParen l.word.pos) htest
    (TokenKind.kind_token .rightParen l.word.pos) hbody
  have hfirst := l.first_spelled
  unfold apart apartOpen stop tree forTree
  cases hclause : l.first with
  | none =>
    rw [hclause] at hfirst
    rw [hfirst.clause_none] at hloop
    exact ⟨_, hloop, by
      simp only [forLoopTree, Stmt.mapNodes, htestBare, hbodyBare]⟩
  | some first =>
    rw [hclause] at hfirst
    have hdecls := Spells.cons hfirst.clause_some
      (.cons (.statement hloop) .nil)
    rw [List.append_nil] at hdecls
    refine ⟨_, .block (.braced rfl hdecls rfl), ?_⟩
    simp only [forLoopTree, Stmt.mapNodes, Stmt.mapAll, htestBare, hbodyBare]

end ForLoop

end Lox
