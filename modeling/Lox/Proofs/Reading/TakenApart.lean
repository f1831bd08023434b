/-
Programs without `for`. Wherever a `for` stands in a program that is
accepted, the blocks and the `while` that it stands for can be written
in its place, and the program is the same up to the numbers and places
of its nodes (`forLoops_taken_apart`). So each program has one that says
the same without the word.

# Which tokens are the loop

The word `for` tells where a loop begins, but not where it ends: its body
may be an `if`, and whether an `else` behind that is a part of it depends
on what stands behind the loop. `Surrounds` says of the tokens before
and behind a loop that they leave it closed, so that no `else` follows
an open end, and that they go on to spell the phrase around whatever
statement is put in the place of the loop. It is shown from the inside
out (`Surrounds.within`), one step for each rule of the grammar that has
a statement in it (`Spells.finds`). And since a reader takes the same
tokens whatever derivation is meant, a loop that is closed is the one
that is found there (`Spells.unique`).
-/
import Lox.Proofs.Reading.ForLoop
import Lox.Proofs.Reading.Parse

namespace Lox

-- ===================================================== phrases without it

/-- Whether a phrase has statements in it. -/
def Phrase.holdsStmts : Phrase → Bool
  | braced _ _ | stmt _ _ | decl _ | decls _ => true
  | _ => false

/-- None of the tokens is the word `for`. -/
def ForFree (ts : List Token) : Prop := ∀ t ∈ ts, t.kind ≠ .kwFor

@[simp] theorem forFree_nil : ForFree [] := nofun

@[simp] theorem forFree_cons {t : Token} {ts : List Token} :
    ForFree (t :: ts) ↔ t.kind ≠ .kwFor ∧ ForFree ts :=
  List.forall_mem_cons

@[simp] theorem forFree_append {ts ts' : List Token} :
    ForFree (ts ++ ts') ↔ ForFree ts ∧ ForFree ts' :=
  List.forall_mem_append

/-- A sign in front of an operand is not the word. -/
theorem UnaryOp.kind_ne_for {kind : TokenKind} {op : UnaryOp}
    (h : UnaryOp.ofKind? kind = some op) : kind ≠ .kwFor := by
  rintro rfl
  cases h

/-- Nor is an operator. -/
theorem Level.kind_ne_for {ℓ : Level} {kind : TokenKind} {op : Connective}
    (h : ℓ.connective? kind = some op) : kind ≠ .kwFor := by
  rintro rfl
  cases ℓ <;> cases h

/-- Nor is a literal, so an expression has no loop in it. -/
theorem Literal.kind_ne_for {t : Token} {value : Literal}
    (h : Literal.ofToken? t = some value) : t.kind ≠ .kwFor := by
  intro hkind
  simp [Literal.ofToken?, hkind] at h

/-- A loop stands only where a statement does. -/
theorem Spells.forFree {n n' : Nat} {ts : List Token} {p : Phrase}
    (h : Spells n ts p n') (hp : p.holdsStmts = false) : ForFree ts := by
  unfold ForFree
  induction h with
  | literal hvalue => simpa using Literal.kind_ne_for hvalue
  | unary hop _ ih =>
    rw [List.forall_mem_cons]
    exact ⟨UnaryOp.kind_ne_for hop, ih rfl⟩
  | join _ hop _ _ ih₁ ih₂ =>
    rw [List.forall_mem_append, List.forall_mem_cons]
    exact ⟨ih₁ rfl, Level.kind_ne_for hop, ih₂ rfl⟩
  | braced | expression | print | ret | block | cond | condElse | loop
  | forLoop | «variable» | function | statement | nil | cons => cases hp
  | _ =>
    simp_all only [Phrase.holdsStmts, List.forall_mem_append,
      List.forall_mem_cons, List.not_mem_nil, false_implies, implies_true,
      and_true, forall_const, ne_eq, reduceCtorEq, not_false_eq_true]

-- =============================================================== uniqueness

/-- The tokens of a statement are known from where it begins and from
that nothing behind it goes on with it. -/
theorem Spells.unique {n n₁ n₂ : Nat} {ts ts' rest rest' : List Token}
    {isOpen isOpen' : Bool} {s s' : Stmt}
    (h : Spells n ts (.stmt isOpen s) n₁)
    (h' : Spells n ts' (.stmt isOpen' s') n₂)
    (heq : ts ++ rest = ts' ++ rest')
    (hrest : isOpen = true → kindAt rest ≠ .kwElse)
    (hrest' : isOpen' = true → kindAt rest' ≠ .kwElse) :
    ts = ts' ∧ rest = rest' ∧ s = s' ∧ n₁ = n₂ := by
  have hread := h.accepted (32 * (ts.length + ts'.length) + 16) rest []
    (by simp only [Phrase.steps]; omega) hrest
  have hread' := h'.accepted (32 * (ts.length + ts'.length) + 16) rest' []
    (by simp only [Phrase.steps]; omega) hrest'
  unfold Phrase.Taken at hread hread'
  rw [heq, hread'] at hread
  injection hread with hs hcursor
  injection hcursor with htokens hnumber
  subst htokens
  exact ⟨List.append_cancel_right heq, rfl, hs.symm, hnumber.symm⟩

-- ============================================================ surroundings

/-- The two phrases are of one form and the same up to the numbers and
places of their nodes. -/
inductive Phrase.Alike : Phrase → Phrase → Prop where
  | braced {node node' : Node} {ss ss' : List Stmt} :
      Stmt.bareAll ss' = Stmt.bareAll ss →
      Alike (.braced node ss) (.braced node' ss')
  | stmt {isOpen isOpen' : Bool} {s s' : Stmt} :
      s'.bare = s.bare → Alike (.stmt isOpen s) (.stmt isOpen' s')
  | decl {s s' : Stmt} : s'.bare = s.bare → Alike (.decl s) (.decl s')
  | decls {ss ss' : List Stmt} :
      Stmt.bareAll ss' = Stmt.bareAll ss → Alike (.decls ss) (.decls ss')

/-- Whether an `else` behind the phrase may become a part of it. -/
def Phrase.mayGoOn : Phrase → Bool
  | stmt isOpen _ => isOpen
  | decl _ | decls _ => true
  | _ => false

/-- In the tokens of the phrase the loop stands between these, closed
against an `else` behind it; and with another spelling of the statement
in its place, if that is as closed, they spell the same phrase. -/
structure Surrounds (l : ForLoop) (before after : List Token) (n : Nat)
    (p : Phrase) (n' : Nat) : Prop where
  closed : l.isOpen = true → kindAt after ≠ .kwElse
  last : after = [] → l.isOpen = true → p.mayGoOn = true
  fill : ∀ {ts isOpen s}, Spells l.start ts (.stmt isOpen s) l.stop →
    s.bare = l.tree.bare → (isOpen = true → kindAt after ≠ .kwElse) →
      ∃ p', p.Alike p' ∧ Spells n (before ++ (ts ++ after)) p' n' ∧
        (p'.mayGoOn = true →
          p.mayGoOn = true ∨ after = [] ∧ isOpen = true)

section Within

variable {l : ForLoop} {before after pre post : List Token}
  {n n' k k' : Nat} {p q : Phrase}

/-- What stands first in two stretches stands first in the one that is not
empty. -/
theorem kindAt_append (as bs : List Token) :
    kindAt (as ++ bs) = if as = [] then kindAt bs else kindAt as := by
  cases as <;> rfl

/-- What surrounds a loop in a part of a phrase surrounds it in the
phrase, with the tokens around the part. -/
theorem Surrounds.within (h : Surrounds l before after n p n')
    (hpost : p.mayGoOn = true → kindAt post ≠ .kwElse)
    (hlast : post = [] → p.mayGoOn = true → q.mayGoOn = true)
    (hbuild : ∀ {ts p'}, p.Alike p' → Spells n ts p' n' →
      (p'.mayGoOn = true → kindAt post ≠ .kwElse) →
        ∃ q', q.Alike q' ∧ Spells k (pre ++ (ts ++ post)) q' k' ∧
          (q'.mayGoOn = true →
            q.mayGoOn = true ∨ post = [] ∧ p'.mayGoOn = true)) :
    Surrounds l (pre ++ before) (after ++ post) k q k' where
  closed hopen := by
    rw [kindAt_append]
    split
    · next hafter => exact hpost (h.last hafter hopen)
    · exact h.closed hopen
  last hempty hopen := by
    obtain ⟨hafter, hnone⟩ := List.append_eq_nil_iff.1 hempty
    exact hlast hnone (h.last hafter hopen)
  fill {ts isOpen s} hs hbare hopen := by
    -- What is put in place of the loop may be open where the loop was not.
    have hinner : isOpen = true → kindAt after ≠ .kwElse := by
      intro hisOpen
      have hkind := hopen hisOpen
      rw [kindAt_append] at hkind
      split at hkind
      · next hafter => rw [hafter]; nofun
      · exact hkind
    obtain ⟨p', halike, hp', hflag⟩ := h.fill hs hbare hinner
    have hp'post : p'.mayGoOn = true → kindAt post ≠ .kwElse := by
      intro hgoes
      rcases hflag hgoes with hgoes | ⟨hafter, hisOpen⟩
      · exact hpost hgoes
      · have hkind := hopen hisOpen
        rwa [hafter] at hkind
    obtain ⟨q', halike', hq', hflag'⟩ := hbuild halike hp' hp'post
    refine ⟨q', halike', by simpa only [List.append_assoc] using hq',
      fun hgoes => ?_⟩
    rcases hflag' hgoes with hgoes | ⟨hnone, hgoes⟩
    · exact .inl hgoes
    · rcases hflag hgoes with hgoes | ⟨hafter, hisOpen⟩
      · exact .inl (hlast hnone hgoes)
      · exact .inr ⟨by rw [hafter, hnone]; rfl, hisOpen⟩

end Within

-- ================================================================= finding

/-- A word in two parts is in the one or in the other. -/
theorem append_eq_append_cons {α : Type} {as bs before rest : List α} {w : α}
    (h : as ++ bs = before ++ w :: rest) :
    (∃ more, as = before ++ w :: more ∧ rest = more ++ bs) ∨
      ∃ more, before = as ++ more ∧ bs = more ++ w :: rest := by
  rcases List.append_eq_append_iff.1 h with ⟨more, hbefore, hbs⟩ |
    ⟨more, has, hrest⟩
  · exact .inr ⟨more, hbefore, hbs⟩
  · cases more with
    | nil => exact .inr ⟨[], by simpa using has.symm, by simpa using hrest.symm⟩
    | cons first more =>
      injection hrest with hfirst hrest
      subst hfirst
      exact .inl ⟨more, has, hrest⟩

/-- The word is not among tokens without it. -/
theorem ForFree.not_append {ts before rest : List Token} {word : Token}
    (h : ForFree ts) (hword : word.kind = .kwFor) :
    ts ≠ before ++ word :: rest := by
  rintro rfl
  exact h word (by simp) hword

/-- Behind tokens without the word, it is in what follows. -/
theorem ForFree.skip {as bs before rest : List Token} {word : Token}
    (h : ForFree as) (hword : word.kind = .kwFor)
    (heq : as ++ bs = before ++ word :: rest) :
    ∃ more, before = as ++ more ∧ bs = more ++ word :: rest := by
  rcases append_eq_append_cons heq with ⟨more, has, -⟩ | hmore
  · exact absurd has (h.not_append hword)
  · exact hmore

/-- Before tokens without the word, it is in what precedes. -/
theorem ForFree.stop {as bs before rest : List Token} {word : Token}
    (h : ForFree bs) (hword : word.kind = .kwFor)
    (heq : as ++ bs = before ++ word :: rest) :
    ∃ more, as = before ++ word :: more ∧ rest = more ++ bs := by
  rcases append_eq_append_cons heq with hmore | ⟨more, -, hbs⟩
  · exact hmore
  · exact absurd hbs (h.not_append hword)

/-- At this word a loop begins, and is surrounded by the phrase. -/
def Finds (word : Token) (before rest : List Token) (n : Nat) (p : Phrase)
    (n' : Nat) : Prop :=
  ∃ l after, word :: rest = ForLoop.tokens l ++ after ∧
    Surrounds l before after n p n'

section Finds

variable {word : Token} {before rest : List Token} {n n' k k' : Nat}
  {p q : Phrase}

/-- One step outwards: what is found in a part is found in the whole, if the
tokens around the part spell the whole with any statement in that place, and
if no `else` behind the part can be taken for one of its own. -/
theorem Finds.within (h : Finds word before rest n p n')
    (pre post : List Token)
    (hpost : p.mayGoOn = true → kindAt post ≠ .kwElse)
    (hlast : post = [] → p.mayGoOn = true → q.mayGoOn = true)
    (hbuild : ∀ {ts p'}, p.Alike p' → Spells n ts p' n' →
      (p'.mayGoOn = true → kindAt post ≠ .kwElse) →
        ∃ q', q.Alike q' ∧ Spells k (pre ++ (ts ++ post)) q' k' ∧
          (q'.mayGoOn = true →
            q.mayGoOn = true ∨ post = [] ∧ p'.mayGoOn = true)) :
    Finds word (pre ++ before) (rest ++ post) k q k' := by
  obtain ⟨l, after, htokens, hsurrounds⟩ := h
  refine ⟨l, after ++ post, ?_, hsurrounds.within hpost hlast hbuild⟩
  rw [← List.cons_append, htokens, List.append_assoc]

/-- The part of the phrase is its last. -/
theorem Finds.behind (h : Finds word before rest n p n') (pre : List Token)
    (hlast : p.mayGoOn = true → q.mayGoOn = true)
    (hbuild : ∀ {ts p'}, p.Alike p' → Spells n ts p' n' →
      ∃ q', q.Alike q' ∧ Spells k (pre ++ ts) q' k' ∧
        (q'.mayGoOn = true → q.mayGoOn = true ∨ p'.mayGoOn = true)) :
    Finds word (pre ++ before) rest k q k' := by
  rw [← List.append_nil rest]
  refine h.within pre [] (fun _ => nofun) (fun _ => hlast)
    fun halike hs _ => ?_
  obtain ⟨q', halike', hs', hflag⟩ := hbuild halike hs
  refine ⟨q', halike', by rwa [List.append_nil], fun hgoes => ?_⟩
  exact (hflag hgoes).imp_right fun h => ⟨rfl, h⟩

end Finds

/-- What a loop stands for depends on its body up to nodes, if it is
looked at so. -/
theorem forTree_bare {body body' : Stmt} (h : body'.bare = body.bare)
    (pos : Position) (first : Option Stmt) (test : Expr)
    (step : Option Expr) (n : Nat) :
    (forTree pos first test step body' n).1.bare
        = (forTree pos first test step body n).1.bare ∧
      (forTree pos first test step body' n).2
        = (forTree pos first test step body n).2 := by
  cases first <;> cases step <;>
    simp [forTree, forLoopTree, forBodyTree, Stmt.mapNodes, Stmt.mapAll, h]

/-- At the word that a loop begins with, this is the loop, and nothing is
around it. -/
theorem Finds.of_forLoop {n n₁ n₂ n₃ n₄ : Nat} {ts₁ ts₂ ts₃ ts₄ : List Token}
    {word opening closing : Token} {isOpen : Bool} {first : Option Stmt}
    {test : Expr} {step : Option Expr} {body : Stmt}
    (hword : word.kind = .kwFor) (hopening : opening.kind = .leftParen)
    (hfirst : Spells n ts₁ (.clause first) n₁)
    (htest : Spells n₁ ts₂ (.test test) n₂)
    (hstep : Spells n₂ ts₃ (.maybe step) n₃)
    (hclosing : closing.kind = .rightParen)
    (hbody : Spells n₃ ts₄ (.stmt isOpen body) n₄) :
    Finds word [] (opening :: (ts₁ ++ (ts₂ ++ (ts₃ ++ closing :: ts₄)))) n
      (.stmt isOpen (forTree word.pos first test step body n₄).1)
      (forTree word.pos first test step body n₄).2 := by
  obtain ⟨test, testTokens, ending, m, rfl, hending, hmaybe, rfl, rfl⟩ :=
    htest.test_cases
  let l : ForLoop :=
    { word, opening, firstTokens := ts₁, first, testTokens, test, ending,
      stepTokens := ts₃, step, closing, bodyTokens := ts₄, isOpen, body,
      start := n, firstEnd := n₁, testEnd := m, stepEnd := n₃, bodyEnd := n₄,
      word_kind := hword, opening_kind := hopening, first_spelled := hfirst,
      test_spelled := hmaybe, ending_kind := hending, step_spelled := hstep,
      closing_kind := hclosing, body_spelled := hbody }
  refine ⟨l, [], ?_, fun _ => nofun, fun _ => id, fun hs hbare _ => ?_⟩
  · simp [l, ForLoop.tokens, ForLoop.behindWord]
  · rw [List.append_nil]
    exact ⟨_, .stmt hbare, hs, fun hopen => .inr ⟨rfl, hopen⟩⟩

/-- No declaration begins with `else`. -/
theorem Spells.kindAt_decls {n n' : Nat} {ts : List Token} {ss : List Stmt}
    (h : Spells n ts (.decls ss) n') : kindAt ts ≠ .kwElse := by
  cases ss with
  | nil =>
    cases h
    nofun
  | cons s ss =>
    obtain ⟨t, rest, rfl, ht⟩ := h.begins rfl
    intro hkind
    rw [kindAt_cons] at hkind
    rw [hkind] at ht
    cases ht

/-- The tokens up to the closing parenthesis, and those behind it. -/
theorem behind_closing (word opening closing : Token)
    (ts ts' : List Token) :
    word :: opening :: (ts ++ closing :: ts')
      = word :: opening :: (ts ++ [closing]) ++ ts' := by
  simp

/-- The clauses of a `for` in their parentheses, and the tokens behind
them. -/
theorem behind_clauses (opening closing : Token)
    (ts₁ ts₂ ts₃ ts₄ : List Token) :
    opening :: (ts₁ ++ (ts₂ ++ (ts₃ ++ closing :: ts₄)))
      = opening :: (ts₁ ++ ts₂ ++ ts₃ ++ [closing]) ++ ts₄ := by
  simp

/-- Wherever this word stands in the tokens, a loop begins that the phrase
surrounds. -/
def FindsAll (word : Token) (n : Nat) (ts : List Token) (p : Phrase)
    (n' : Nat) : Prop :=
  ∀ before rest, ts = before ++ word :: rest → Finds word before rest n p n'

section Arms

variable {word : Token} (hword : word.kind = .kwFor)
  {n n₁ n₂ n₃ n₄ : Nat} {ts ts' ts₁ ts₂ ts₃ ts₄ : List Token}
  {first opening closing other name : Token} {isOpen : Bool}
  {test : Expr} {yes no body : Stmt}

include hword

/-- Without the word there is nothing to find. -/
theorem findsAll_forFree {p : Phrase} (h : ForFree ts) :
    FindsAll word n ts p n₁ :=
  fun _ _ heq => absurd heq (h.not_append hword)

/-- In braces nothing behind goes on with what is inside. -/
theorem findsAll_braced {ss : List Stmt} (hopening : opening.kind = .leftBrace)
    (hclosing : closing.kind = .rightBrace)
    (ih : FindsAll word n ts (.decls ss) n₁) :
    FindsAll word n (opening :: (ts ++ [closing]))
      (.braced ⟨n₁, opening.pos⟩ ss) (n₁ + 1) := by
  intro before rest heq
  have hpre : ForFree [opening] := by simp [hopening]
  obtain ⟨more, rfl, hmore⟩ := hpre.skip hword heq
  have hpost : ForFree [closing] := by simp [hclosing]
  obtain ⟨more', rfl, rfl⟩ := hpost.stop hword hmore
  refine (ih _ _ rfl).within [opening] [closing]
    (fun _ => by simp [hclosing]) nofun fun halike hs' _ => ?_
  cases halike with
  | decls hbare =>
    exact ⟨_, .braced hbare, .braced hopening hs' hclosing, nofun⟩

omit hword in
/-- A block is what its braces hold. -/
theorem findsAll_block {node : Node} {ss : List Stmt}
    (ih : FindsAll word n ts (.braced node ss) n₁) :
    FindsAll word n ts (.stmt false (.block node ss)) n₁ := by
  intro before rest heq
  refine (ih _ _ heq).behind [] nofun fun halike hs' => ?_
  cases halike with
  | braced hbare =>
    exact ⟨_, .stmt (by simp only [Stmt.mapNodes, hbare]), .block hs', nofun⟩

/-- A loop may be the branch of an `if`, or stand in it. What is behind the
branch is behind the `if`, and an open branch leaves that open too. -/
theorem findsAll_cond (hkind : first.kind = .kwIf)
    (hopening : opening.kind = .leftParen)
    (htest : Spells n ts (.expr .assignment test) n₁)
    (hclosing : closing.kind = .rightParen)
    (ih : FindsAll word n₁ ts' (.stmt isOpen yes) n₂) :
    FindsAll word n (first :: opening :: (ts ++ closing :: ts'))
      (.stmt true (.cond ⟨n₂, first.pos⟩ test yes none)) (n₂ + 1) := by
  intro before rest heq
  have hpre : ForFree (first :: opening :: (ts ++ [closing])) := by
    simp [hkind, hopening, htest.forFree rfl, hclosing]
  rw [behind_closing] at heq
  obtain ⟨more, rfl, hmore⟩ := hpre.skip hword heq
  refine (ih _ _ hmore).behind _ (fun _ => rfl) fun halike hs' => ?_
  cases halike with
  | stmt hbare =>
    have hstmt := Spells.cond hkind hopening htest hclosing hs'
    rw [behind_closing] at hstmt
    exact ⟨_, .stmt (by simp only [Stmt.mapNodes, hbare]), hstmt,
      fun _ => .inl rfl⟩

/-- The loop is in the branch in front of the `else`, or behind it. -/
theorem findsAll_condElse (hkind : first.kind = .kwIf)
    (hopening : opening.kind = .leftParen)
    (htest : Spells n ts₁ (.expr .assignment test) n₁)
    (hclosing : closing.kind = .rightParen)
    (hyes : Spells n₁ ts₂ (.stmt false yes) n₂)
    (hother : other.kind = .kwElse)
    (hno : Spells n₂ ts₃ (.stmt isOpen no) n₃)
    (ihYes : FindsAll word n₁ ts₂ (.stmt false yes) n₂)
    (ihNo : FindsAll word n₂ ts₃ (.stmt isOpen no) n₃) :
    FindsAll word n
      (first :: opening :: (ts₁ ++ closing :: (ts₂ ++ other :: ts₃)))
      (.stmt isOpen (.cond ⟨n₃, first.pos⟩ test yes (some no)))
      (n₃ + 1) := by
  intro before rest heq
  have hpre : ForFree (first :: opening :: (ts₁ ++ [closing])) := by
    simp [hkind, hopening, htest.forFree rfl, hclosing]
  rw [behind_closing] at heq
  obtain ⟨more, rfl, hmore⟩ := hpre.skip hword heq
  rcases append_eq_append_cons hmore with ⟨more', hyes', rfl⟩ |
    ⟨more', rfl, hmore'⟩
  · refine (ihYes _ _ hyes').within _ (other :: ts₃) nofun nofun
      fun halike hs' hclosed => ?_
    cases halike with
    | @stmt _ isOpen _ _ hbare =>
      -- The branch in front of the `else` has to be closed again.
      obtain rfl : isOpen = false := by
        cases isOpen with
        | false => rfl
        | true => exact absurd hother (hclosed rfl)
      have hstmt := Spells.condElse hkind hopening htest hclosing hs' hother
        hno
      rw [behind_closing] at hstmt
      exact ⟨_, .stmt (by simp only [Stmt.mapNodes, hbare]), hstmt, .inl⟩
  · have helse : ForFree [other] := by simp [hother]
    obtain ⟨inner, rfl, hinner⟩ := helse.skip hword hmore'
    have hbefore : first :: opening :: (ts₁ ++ [closing]) ++
        (ts₂ ++ ([other] ++ inner))
          = first :: opening :: (ts₁ ++ [closing]) ++ (ts₂ ++ [other]) ++
              inner := by
      simp
    rw [hbefore]
    refine (ihNo _ _ hinner).behind _ id fun {ts'} _ halike hs' => ?_
    cases halike with
    | stmt hbare =>
      have hstmt := Spells.condElse hkind hopening htest hclosing hyes hother
        hs'
      have hsplit : ts₂ ++ other :: ts' = ts₂ ++ [other] ++ ts' := by simp
      rw [behind_closing, hsplit, ← List.append_assoc] at hstmt
      exact ⟨_, .stmt (by simp only [Stmt.mapNodes, hbare]), hstmt, .inr⟩

/-- The same of the body of a `while`. -/
theorem findsAll_loop (hkind : first.kind = .kwWhile)
    (hopening : opening.kind = .leftParen)
    (htest : Spells n ts (.expr .assignment test) n₁)
    (hclosing : closing.kind = .rightParen)
    (ih : FindsAll word n₁ ts' (.stmt isOpen body) n₂) :
    FindsAll word n (first :: opening :: (ts ++ closing :: ts'))
      (.stmt isOpen (.loop ⟨n₂, first.pos⟩ test body)) (n₂ + 1) := by
  intro before rest heq
  have hpre : ForFree (first :: opening :: (ts ++ [closing])) := by
    simp [hkind, hopening, htest.forFree rfl, hclosing]
  rw [behind_closing] at heq
  obtain ⟨more, rfl, hmore⟩ := hpre.skip hword heq
  refine (ih _ _ hmore).behind _ id fun halike hs' => ?_
  cases halike with
  | stmt hbare =>
    have hstmt := Spells.loop hkind hopening htest hclosing hs'
    rw [behind_closing] at hstmt
    exact ⟨_, .stmt (by simp only [Stmt.mapNodes, hbare]), hstmt, .inr⟩

/-- The loop is this one, or in its body. -/
theorem findsAll_forLoop {clause : Option Stmt} {step : Option Expr}
    (hkind : first.kind = .kwFor) (hopening : opening.kind = .leftParen)
    (hclause : Spells n ts₁ (.clause clause) n₁)
    (htest : Spells n₁ ts₂ (.test test) n₂)
    (hstep : Spells n₂ ts₃ (.maybe step) n₃)
    (hclosing : closing.kind = .rightParen)
    (hbody : Spells n₃ ts₄ (.stmt isOpen body) n₄)
    (ih : FindsAll word n₃ ts₄ (.stmt isOpen body) n₄) :
    FindsAll word n
      (first :: opening :: (ts₁ ++ (ts₂ ++ (ts₃ ++ closing :: ts₄))))
      (.stmt isOpen (forTree first.pos clause test step body n₄).1)
      (forTree first.pos clause test step body n₄).2 := by
  intro before rest heq
  cases before with
  | nil =>
    injection heq with hfirstWord hrest
    subst hfirstWord hrest
    exact .of_forLoop hkind hopening hclause htest hstep hclosing hbody
  | cons t before =>
    injection heq with hfirstWord hrest
    subst hfirstWord
    have hpre : ForFree (opening :: (ts₁ ++ ts₂ ++ ts₃ ++ [closing])) := by
      simp [hopening, hclause.forFree rfl, htest.forFree rfl,
        hstep.forFree rfl, hclosing]
    rw [behind_clauses] at hrest
    obtain ⟨more, rfl, hmore⟩ := hpre.skip hword hrest
    rw [← List.cons_append]
    refine (ih _ _ hmore).behind _ id fun halike hs' => ?_
    cases halike with
    | stmt hbare =>
      have hstmt := Spells.forLoop hkind hopening hclause htest hstep hclosing
        hs'
      obtain ⟨htree, hnumber⟩ := forTree_bare hbare first.pos _ _ _ _
      rw [behind_clauses, ← List.cons_append, hnumber] at hstmt
      exact ⟨_, .stmt htree, hstmt, .inr⟩

/-- In the body of a function a loop stands between braces. -/
theorem findsAll_function {params : List Name} {node : Node}
    {ss : List Stmt} (hkind : first.kind = .kwFun)
    (hname : name.kind = .identifier) (hopening : opening.kind = .leftParen)
    (hparams : Spells n ts (.params params) n₁)
    (hclosing : closing.kind = .rightParen)
    (ih : FindsAll word n₁ ts' (.braced node ss) n₂) :
    FindsAll word n (first :: name :: opening :: (ts ++ closing :: ts'))
      (.decl (.funDecl ⟨n₂ + 1, first.pos⟩ ⟨name.lexeme, name.pos⟩ n₂ params
        node ss)) (n₂ + 2) := by
  intro before rest heq
  have hpre : ForFree (first :: name :: opening :: (ts ++ [closing])) := by
    simp [hkind, hname, hopening, hparams.forFree rfl, hclosing]
  rw [behind_closing name] at heq
  obtain ⟨more, rfl, hmore⟩ := hpre.skip hword heq
  refine (ih _ _ hmore).behind _ nofun fun halike hs' => ?_
  cases halike with
  | braced hbare =>
    have hdecl := Spells.function hkind hname hopening hparams hclosing hs'
    rw [behind_closing name] at hdecl
    exact ⟨_, .decl (by simp only [Stmt.mapNodes, hbare]), hdecl, .inl⟩

omit hword in
/-- A declaration that is a statement is that statement. -/
theorem findsAll_statement {s : Stmt}
    (ih : FindsAll word n ts (.stmt isOpen s) n₁) :
    FindsAll word n ts (.decl s) n₁ := by
  intro before rest heq
  refine (ih _ _ heq).behind [] (fun _ => rfl) fun halike hs' => ?_
  cases halike with
  | stmt hbare => exact ⟨_, .decl hbare, .statement hs', fun _ => .inl rfl⟩

omit hword in
/-- The loop is in the first declaration, or in those behind it. -/
theorem findsAll_cons {s : Stmt} {ss : List Stmt}
    (hfirst : Spells n ts (.decl s) n₁)
    (hothers : Spells n₁ ts' (.decls ss) n₂)
    (ihFirst : FindsAll word n ts (.decl s) n₁)
    (ihOthers : FindsAll word n₁ ts' (.decls ss) n₂) :
    FindsAll word n (ts ++ ts') (.decls (s :: ss)) n₂ := by
  intro before rest heq
  rcases append_eq_append_cons heq with ⟨more, hmore, rfl⟩ |
    ⟨more, rfl, hmore⟩
  · refine (ihFirst _ _ hmore).within [] _ (fun _ => hothers.kindAt_decls)
      (fun _ _ => rfl) fun halike hs' _ => ?_
    cases halike with
    | decl hbare =>
      have hdecls := Spells.cons hs' hothers
      exact ⟨_, .decls (by simp only [Stmt.mapAll, hbare]), hdecls,
        fun _ => .inl rfl⟩
  · refine (ihOthers _ _ hmore).behind _ (fun _ => rfl) fun halike hs' => ?_
    cases halike with
    | decls hbare =>
      exact ⟨_, .decls (by simp only [Stmt.mapAll, hbare]),
        .cons hfirst hs', fun _ => .inl rfl⟩

/-- Wherever the word `for` stands in the tokens of a phrase, a loop
begins that the phrase surrounds. -/
theorem Spells.finds {n n' : Nat} {ts : List Token} {p : Phrase}
    (h : Spells n ts p n') : FindsAll word n ts p n' := by
  cases hp : p.holdsStmts with
  | false => exact findsAll_forFree hword (h.forFree hp)
  | true =>
  induction h with
  | braced hopening _ hclosing ih =>
    exact findsAll_braced hword hopening hclosing (ih rfl)
  | expression hs | «variable» hs =>
    exact findsAll_forFree hword (hs.forFree rfl)
  | print hkind hs hending | ret hkind hs hending =>
    refine findsAll_forFree hword ?_
    simp [hkind, hs.forFree rfl, hending]
  | block _ ih => exact findsAll_block (ih rfl)
  | cond hkind hopening htest hclosing _ _ ih =>
    exact findsAll_cond hword hkind hopening htest hclosing (ih rfl)
  | condElse hkind hopening htest hclosing hyes hother hno _ ihYes ihNo =>
    exact findsAll_condElse hword hkind hopening htest hclosing hyes hother
      hno (ihYes rfl) (ihNo rfl)
  | loop hkind hopening htest hclosing _ _ ih =>
    exact findsAll_loop hword hkind hopening htest hclosing (ih rfl)
  | forLoop hkind hopening hclause htest hstep hclosing hbody _ _ _ ih =>
    exact findsAll_forLoop hword hkind hopening hclause htest hstep hclosing
      hbody (ih rfl)
  | function hkind hname hopening hparams hclosing _ _ ih =>
    exact findsAll_function hword hkind hname hopening hparams hclosing
      (ih rfl)
  | statement _ ih => exact findsAll_statement (ih rfl)
  | nil => exact findsAll_forFree hword forFree_nil
  | cons hfirst hothers ihFirst ihOthers =>
    exact findsAll_cons hfirst hothers (ihFirst rfl) (ihOthers rfl)
  | _ => cases hp

end Arms

-- ============================================================= taken apart

/-- How many loops begin in the tokens. -/
def loopsIn (ts : List Token) : Nat := ts.countP fun t => t.kind == .kwFor

/-- Without the word there is no loop, so the count of the word comes down to
nothing. -/
theorem forFree_iff_loopsIn {ts : List Token} :
    ForFree ts ↔ loopsIn ts = 0 := by
  unfold ForFree loopsIn
  rw [List.countP_eq_zero]
  simp

/-- A loop that is taken apart is one loop less. -/
theorem ForLoop.loopsIn_apart (l : ForLoop) :
    loopsIn l.apart + 1 = loopsIn l.tokens := by
  have hfirst := forFree_iff_loopsIn.1 (l.first_spelled.forFree rfl)
  have htest := forFree_iff_loopsIn.1 (l.test_spelled.forFree rfl)
  have hstep := forFree_iff_loopsIn.1 (l.step_spelled.forFree rfl)
  unfold loopsIn at *
  have htokens : l.tokens.countP (fun t => t.kind == .kwFor)
      = l.bodyTokens.countP (fun t => t.kind == .kwFor) + 1 := by
    simp [tokens, behindWord, hfirst, htest, hstep, l.word_kind,
      l.opening_kind, l.ending_kind, l.closing_kind]
  rw [htokens]
  unfold apart whileApart testApart bodyApart
  split <;> split <;> split <;>
    simp [TokenKind.token, hfirst, htest, hstep]

/-- In a program, a loop that no `else` goes on with can be taken
apart. -/
theorem Spells.taken_apart {before after : List Token} {l : ForLoop}
    {n n' : Nat} {program : List Stmt}
    (h : Spells n (before ++ (l.tokens ++ after)) (.decls program) n')
    (hafter : l.isOpen = true → kindAt after ≠ .kwElse) :
    ∃ program', Spells n (before ++ (l.apart ++ after)) (.decls program') n' ∧
      Stmt.bareAll program' = Stmt.bareAll program := by
  obtain ⟨l', after', htokens, hsurrounds⟩ := h.finds l.word_kind _ _ rfl
  -- The loop that is found has the same tokens, numbered otherwise.
  have hspells := l.spells.renumber l'.start
  obtain ⟨-, rfl, htree, hstop⟩ := hspells.unique l'.spells htokens hafter
    hsurrounds.closed
  obtain ⟨s, hs, hbare⟩ := l.spells_apart
  have hs' := hs.renumber l'.start
  rw [hstop] at hs'
  have hbare' : (s.mapNodes (.renumber fun i => i - l.start + l'.start)).bare
      = l'.tree.bare := by
    rw [Stmt.bare_renumber, hbare, ← htree, Stmt.bare_renumber]
  obtain ⟨_, halike, hfilled, -⟩ := hsurrounds.fill hs' hbare' fun hopen =>
    hafter (l.isOpen_of_apartOpen hopen)
  cases halike with
  | decls hbare => exact ⟨_, hfilled, hbare⟩

/-- Some tokens without a loop spell the same program, up to the numbers
and places of its nodes. -/
theorem Spells.exists_forFree {n n' : Nat} {ts : List Token}
    {program : List Stmt} (h : Spells n ts (.decls program) n') :
    ∃ ts' program', ForFree ts' ∧ Spells n ts' (.decls program') n' ∧
      Stmt.bareAll program' = Stmt.bareAll program := by
  -- The induction is on how many loops are left.
  induction hloops : loopsIn ts generalizing ts program with
  | zero => exact ⟨ts, program, forFree_iff_loopsIn.2 hloops, h, rfl⟩
  | succ loops ih =>
    obtain ⟨word, hmem, hword⟩ := List.countP_pos_iff.1
      (show 0 < loopsIn ts by omega)
    obtain ⟨before, rest, rfl⟩ := List.append_of_mem hmem
    obtain ⟨l, after, htokens, hsurrounds⟩ := h.finds (by simpa using hword)
      _ _ rfl
    rw [htokens] at h hloops
    obtain ⟨program₁, h₁, hbare₁⟩ := h.taken_apart hsurrounds.closed
    have hone := l.loopsIn_apart
    have hloops₁ : loopsIn (before ++ (l.apart ++ after)) = loops := by
      unfold loopsIn at *
      simp only [List.countP_append] at *
      omega
    obtain ⟨ts', program', hfree, hs, hbare⟩ := ih h₁ hloops₁
    exact ⟨ts', program', hfree, hs, hbare.trans hbare₁⟩

/-- A loop anywhere in a program that is accepted, closed against an
`else` behind it, can be written as the blocks and the `while` that it
stands for: that is accepted, and the program is the same up to the
numbers and places of its nodes. At each word `for` there is such a
loop. So for each program that is accepted there are tokens without that
word which are accepted as the same program. -/
theorem forLoops_taken_apart :
    (∀ (before after : List Token) (l : ForLoop) (eof : Token) (n : Nat)
        (program : List Stmt) (n' : Nat),
      eof.kind = .endOfText →
      (∀ t ∈ before ++ (l.tokens ++ after), t.kind ≠ .endOfText) →
      (l.isOpen = true → kindAt after ≠ .kwElse) →
      parse (before ++ (l.tokens ++ after) ++ [eof]) n
          = ⟨.ok program, n'⟩ →
        ∃ program',
          parse (before ++ (l.apart ++ after) ++ [eof]) n
              = ⟨.ok program', n'⟩ ∧
            Stmt.bareAll program' = Stmt.bareAll program) ∧
    (∀ (before rest : List Token) (word eof : Token) (n : Nat)
        (program : List Stmt) (n' : Nat),
      eof.kind = .endOfText →
      (∀ t ∈ before ++ word :: rest, t.kind ≠ .endOfText) →
      word.kind = .kwFor →
      parse (before ++ word :: rest ++ [eof]) n = ⟨.ok program, n'⟩ →
        ∃ (l : ForLoop) (after : List Token),
          word :: rest = l.tokens ++ after ∧
            (l.isOpen = true → kindAt after ≠ .kwElse)) ∧
    ∀ (ts : List Token) (eof : Token) (n : Nat) (program : List Stmt)
        (n' : Nat),
      eof.kind = .endOfText →
      (∀ t ∈ ts, t.kind ≠ .endOfText) →
      parse (ts ++ [eof]) n = ⟨.ok program, n'⟩ →
        ∃ (ts' : List Token) (program' : List Stmt),
          (∀ t ∈ ts', t.kind ≠ .kwFor ∧ t.kind ≠ .endOfText) ∧
            parse (ts' ++ [eof]) n = ⟨.ok program', n'⟩ ∧
            Stmt.bareAll program' = Stmt.bareAll program := by
  refine ⟨?_, ?_, ?_⟩
  · intro before after l eof n program n' heof hts hafter hparse
    have hs := spells_of_parse heof hts hparse
    obtain ⟨program', hs', hbare⟩ := hs.taken_apart hafter
    exact ⟨program', parse_of_spells heof hs', hbare⟩
  · intro before rest word eof n program n' heof hts hword hparse
    have hs := spells_of_parse heof hts hparse
    obtain ⟨l, after, htokens, hsurrounds⟩ := hs.finds hword _ _ rfl
    exact ⟨l, after, htokens, hsurrounds.closed⟩
  · intro ts eof n program n' heof hts hparse
    have hs := spells_of_parse heof hts hparse
    obtain ⟨ts', program', hfree, hs', hbare⟩ := hs.exists_forFree
    exact ⟨ts', program', fun t ht => ⟨hfree t ht, hs'.ne_end t ht⟩,
      parse_of_spells heof hs', hbare⟩

/-- The loop `for (;;i) if (b) {} else {}`. -/
def elseInBody : ForLoop where
  word := TokenKind.kwFor.token .start
  opening := TokenKind.leftParen.token .start
  firstTokens := [TokenKind.semicolon.token .start]
  first := none
  testTokens := []
  test := none
  ending := TokenKind.semicolon.token .start
  stepTokens := [⟨.identifier, "i", .start⟩]
  step := some (.var ⟨3, .start⟩ "i")
  closing := TokenKind.rightParen.token .start
  bodyTokens :=
    [TokenKind.kwIf.token .start, TokenKind.leftParen.token .start,
      ⟨.identifier, "b", .start⟩, TokenKind.rightParen.token .start,
      TokenKind.leftBrace.token .start, TokenKind.rightBrace.token .start,
      TokenKind.kwElse.token .start, TokenKind.leftBrace.token .start,
      TokenKind.rightBrace.token .start]
  isOpen := false
  body := .cond ⟨7, .start⟩ (.var ⟨4, .start⟩ "b") (.block ⟨5, .start⟩ [])
    (some (.block ⟨6, .start⟩ []))
  start := 2
  firstEnd := 2
  testEnd := 2
  stepEnd := 4
  bodyEnd := 8
  word_kind := rfl
  opening_kind := rfl
  first_spelled := .noClause rfl
  test_spelled := .absent
  ending_kind := rfl
  step_spelled := .present (Spells.loosen (.var rfl) _ (Nat.zero_le _))
  closing_kind := rfl
  body_spelled :=
    .condElse rfl rfl (Spells.loosen (.var rfl) _ (Nat.zero_le _)) rfl
      (.block (.braced rfl .nil rfl)) rfl (.block (.braced rfl .nil rfl))

/-- The tokens of `if (a)`. -/
def ifA : List Token :=
  [TokenKind.kwIf.token .start, TokenKind.leftParen.token .start,
    ⟨.identifier, "a", .start⟩, TokenKind.rightParen.token .start]

theorem forLoops_taken_apart_elseInBody :
    elseInBody.apart.map Token.lexeme
        = ["while", "(", "true", ")", "\x7b", "if", "(", "b", ")", "\x7b",
          "\x7d", "else", "\x7b", "\x7d", "i", ";", "\x7d"] ∧
      ∃ program program' n',
        parse (ifA ++ (elseInBody.tokens ++ []) ++ [⟨.endOfText, "", .start⟩])
            1 = ⟨.ok program, n'⟩ ∧
          parse (ifA ++ (elseInBody.apart ++ []) ++
            [⟨.endOfText, "", .start⟩]) 1 = ⟨.ok program', n'⟩ ∧
          Stmt.bareAll program' = Stmt.bareAll program := by
  refine ⟨rfl, ?_⟩
  have ha : Spells 1 [⟨.identifier, "a", .start⟩]
      (.expr .assignment (.var ⟨1, .start⟩ "a")) 2 :=
    Spells.loosen (.var rfl) _ (Nat.zero_le _)
  have hcond := Spells.cond (TokenKind.kind_token .kwIf .start)
    (TokenKind.kind_token .leftParen .start) ha
    (TokenKind.kind_token .rightParen .start) elseInBody.spells
  have hparse := parse_of_spells
    (show (Token.mk .endOfText "" .start).kind = .endOfText from rfl)
    (.cons (.statement hcond) .nil)
  obtain ⟨program', hparse', hbare⟩ := forLoops_taken_apart.1 ifA [] elseInBody
    ⟨.endOfText, "", .start⟩ 1 _ _ rfl (by decide) nofun hparse
  exact ⟨_, program', _, hparse, hparse', hbare⟩

end Lox
