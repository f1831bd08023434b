/-
The course of a reading. A reading passes its tokens one by one. Most it
takes; but where a declaration is refused, an error is recorded and
tokens are dropped up to where reading is taken up again. An account says
which tokens were taken, which errors were met and which tokens were
dropped, and `Course` says how the three go together: the tokens that are
dropped behind an error begin where the reader stood when it was refused,
which is at the token of the error, or behind the value of the assignment
at whose sign the error stands.

# Braces

Of the tokens taken, each brace is the opening or the closing one of a
block. So every brace that is opened and taken is closed by one that is
taken, or its block is reported as open at the end of the text
(`Account.Leaves`). A brace that is dropped is nobody's. If the first
error of all is that a block is open, the block is in the text and its
body is without a fault (`HoldsOpenBlock`).
-/
import Lox.Proofs.Reading.Extent
import Lox.Proofs.Reading.Inside

namespace Lox

-- ============================================================== accounts

/-- What becomes of the tokens of a text while it is read. -/
structure Account where
  taken : List Token
  met : List SyntaxError
  /-- The tokens that were dropped behind the errors, in order. -/
  dropped : List Token

namespace Account

/-- One account behind the other. -/
def append (a b : Account) : Account :=
  ⟨a.taken ++ b.taken, a.met ++ b.met, a.dropped ++ b.dropped⟩

/-- The account of tokens that were taken one after another. -/
def ofTaken (taken : List Token) : Account := ⟨taken, [], []⟩

end Account

/-- How many tokens are of this kind. -/
def countKind (kind : TokenKind) (ts : List Token) : Nat :=
  ts.countP (·.kind = kind)

/-- How many of the errors report an open block. -/
def countOpenBlocks (errors : List SyntaxError) : Nat :=
  errors.countP (·.fault = .openBlock)

@[simp] theorem countKind_append (kind : TokenKind) (ts ts' : List Token) :
    countKind kind (ts ++ ts') = countKind kind ts + countKind kind ts' :=
  List.countP_append

@[simp] theorem countOpenBlocks_nil : countOpenBlocks [] = 0 := rfl

@[simp] theorem countOpenBlocks_append (es es' : List SyntaxError) :
    countOpenBlocks (es ++ es') = countOpenBlocks es + countOpenBlocks es' :=
  List.countP_append

@[simp] theorem countOpenBlocks_singleton (e : SyntaxError) :
    countOpenBlocks [e] = if e.fault = .openBlock then 1 else 0 := by
  simp [countOpenBlocks, List.countP_cons]

/-- Tokens none of which is of a kind are not counted for it. -/
theorem countKind_eq_zero {kind : TokenKind} {ts : List Token}
    (h : ∀ t ∈ ts, t.kind ≠ kind) : countKind kind ts = 0 := by
  simpa [countKind, List.countP_eq_zero] using h

/-- Of the braces that were opened and taken, so many were neither closed
nor reported. -/
def Account.Leaves (a : Account) (count : Nat) : Prop :=
  countKind .leftBrace a.taken
    = countKind .rightBrace a.taken + countOpenBlocks a.met + count

/-- Braces that are left open by two accounts, one behind the other, add
up. -/
theorem Account.Leaves.append {a b : Account} {count count' : Nat}
    (ha : a.Leaves count) (hb : b.Leaves count') :
    (a.append b).Leaves (count + count') := by
  unfold Leaves at ha hb ⊢
  simp only [Account.append, countKind_append, countOpenBlocks_append]
  omega

-- =============================================================== courses

/-- The tokens are passed up to the last ones, by this account. -/
inductive Course : List Token → Account → List Token → Prop where
  | stop {rest : List Token} : Course rest ⟨[], [], []⟩ rest
  | take {t : Token} {ts rest : List Token} {a : Account} :
      t.kind ≠ .endOfText → Course ts a rest →
      Course (t :: ts) ⟨t :: a.taken, a.met, a.dropped⟩ rest
  | recover {e : SyntaxError} {since left skipped rest : List Token}
      {a : Account} :
      e.Refuses since left → left = skipped ++ Reader.resume left →
      Course (Reader.resume left) a rest →
      Course (since ++ left)
        ⟨since ++ a.taken, e :: a.met, skipped ++ a.dropped⟩ rest

namespace Course

variable {ts ts' rest : List Token} {a b : Account}

/-- A course goes on where another has come to. -/
theorem trans (h : Course ts a ts') (h' : Course ts' b rest) :
    Course ts (a.append b) rest := by
  induction h with
  | stop => exact h'
  | take ht _ ih => exact .take ht (ih h')
  | @recover e since left skipped rest a he hleft _ ih =>
    have hcourse := Course.recover he hleft (ih h')
    simpa [Account.append, List.append_assoc] using hcourse

/-- To take tokens one after another is a course, as long as the end of the
text is not among them. -/
theorem ofTaken (h : ∀ t ∈ ts, t.kind ≠ .endOfText) :
    Course (ts ++ rest) (.ofTaken ts) rest := by
  induction ts with
  | nil => exact .stop
  | cons t ts ih =>
    rw [List.forall_mem_cons] at h
    exact .take h.1 (ih h.2)

/-- To take the token at hand is one. -/
theorem advance {c : Cursor} (h : c.current.kind ≠ .endOfText) :
    Course c.rest (.ofTaken [c.current]) c.advance.rest := by
  rw [Cursor.rest_eq_current_cons_advance h]
  show Course ([c.current] ++ c.advance.rest) _ _
  exact ofTaken (by simpa using h)

/-- A course comes to tokens that are the last ones. -/
theorem suffix (h : Course ts a rest) : rest <:+ ts := by
  induction h with
  | stop => exact List.suffix_rfl
  | take _ _ ih => exact ih.trans (List.suffix_cons _ _)
  | @recover _ since left skipped _ _ _ hleft _ ih =>
    refine ih.trans (List.IsSuffix.trans ⟨skipped, hleft.symm⟩ ?_)
    exact List.suffix_append _ _

end Course

-- =========================================================== open blocks

/-- A brace is opened before declarations without a fault, and behind them
the text ends. -/
inductive HoldsOpenBlock : List Token → Prop where
  | intro {before body rest : List Token} {opening : Token}
      {program : List Stmt} {n n' : Nat} :
      opening.kind = .leftBrace → Spells n body (.decls program) n' →
      (tokenAt rest).kind = .endOfText →
      HoldsOpenBlock (before ++ opening :: (body ++ rest))

/-- A block that is open in the last tokens is open in all of them. -/
theorem HoldsOpenBlock.of_suffix {ts ts' : List Token}
    (h : HoldsOpenBlock ts) (hsuffix : ts <:+ ts') : HoldsOpenBlock ts' := by
  obtain ⟨before', rfl⟩ := hsuffix
  cases h with
  | intro hopening hbody hend =>
    rw [← List.append_assoc]
    exact .intro hopening hbody hend

/-- If nothing was wrong before and the first of these errors is an open
block, the tokens hold one. -/
def OpensFirst (ts : List Token) (before errors : List SyntaxError) : Prop :=
  before = [] → ∀ e ∈ errors.head?, e.fault = .openBlock → HoldsOpenBlock ts

/-- Only the first error counts: behind another one nothing is said of an open
block. -/
theorem OpensFirst.append {ts : List Token}
    {before errors more : List SyntaxError}
    (h : OpensFirst ts before errors)
    (hmore : OpensFirst ts (before ++ errors) more) :
    OpensFirst ts before (errors ++ more) := by
  cases errors with
  | nil => rwa [List.append_nil] at hmore
  | cons e errors => exact h

/-- A reader that was refused has taken only an assignment since it met the
fault, and no brace. -/
theorem SyntaxError.Refuses.countKind_eq_zero {e : SyntaxError}
    {since rest : List Token} (h : e.Refuses since rest) {kind : TokenKind}
    (hkind : kind = .leftBrace ∨ kind = .rightBrace) :
    countKind kind since = 0 := by
  cases h with
  | here => rfl
  | assignment htarget hsign _ _ _ hinside =>
    have hequal := hsign.2
    rw [htarget] at hequal
    refine Lox.countKind_eq_zero
      (List.forall_mem_cons.2 ⟨?_, fun t ht heq => ?_⟩)
    · rw [hequal]
      rcases hkind with rfl | rfl <;> decide
    · have hplain := hinside t ht
      rw [heq] at hplain
      rcases hkind with rfl | rfl <;> cases hplain

/-- Whether a token of this kind frames statements: a brace, or the end of
the text. -/
def TokenKind.frames : TokenKind → Bool
  | leftBrace | rightBrace | endOfText => true
  | _ => false

namespace Reader

-- =============================================================== outcomes

variable {α β : Type} {r r' : Reader α} {f : α → Reader β} {c c₁ c₂ : Cursor}
  {a b : Account} {count : Nat} {left : List Token}

/-- Between the cursor and these tokens, with these errors at the end, the
account is right. -/
structure Accounts (c : Cursor) (a : Account) (count : Nat)
    (left : List Token) (errors : List SyntaxError) : Prop where
  course : Course c.rest a left
  errors : errors = c.errors ++ a.met
  leaves : a.Leaves count
  opened : OpensFirst c.rest c.errors a.met

/-- Where nothing happens, nothing is to be accounted for. -/
theorem Accounts.refl (c : Cursor) :
    Accounts c ⟨[], [], []⟩ 0 c.rest c.errors :=
  ⟨.stop, by simp, rfl, nofun⟩

/-- Accounts are put one behind the other. The block that is still open in the
first is one that the second may close. -/
theorem Accounts.trans {errors : List SyntaxError} {count' : Nat}
    (h : Accounts c a count c₁.rest c₁.errors)
    (h' : Accounts c₁ b count' left errors) :
    Accounts c (a.append b) (count + count') left errors where
  course := h.course.trans h'.course
  errors := by rw [h'.errors, h.errors, List.append_assoc]; rfl
  leaves := h.leaves.append h'.leaves
  opened := h.opened.append fun hnone e he hopen =>
    (h'.opened (h.errors.trans hnone) e he hopen).of_suffix h.course.suffix

/-- A brace that is opened is to be closed. -/
theorem accounts_opening (h : c.current.kind = .leftBrace) :
    Accounts c (.ofTaken [c.current]) 1 c.advance.rest c.advance.errors where
  course := .advance (by rw [h]; decide)
  errors := by simp [Account.ofTaken]
  leaves := by
    simp [Account.Leaves, Account.ofTaken, countKind, countOpenBlocks, h]
  opened := nofun

/-- A brace that closes the one that was opened. -/
theorem Accounts.closing (h : Accounts c a 1 c₁.rest c₁.errors)
    (hkind : c₁.current.kind = .rightBrace) :
    Accounts c (a.append (.ofTaken [c₁.current])) 0 c₁.advance.rest
      c₁.advance.errors where
  course := h.course.trans (.advance (by rw [hkind]; decide))
  errors := by simp [h.errors, Account.append, Account.ofTaken]
  leaves := by
    have hleaves := h.leaves
    have hclosing : countKind .leftBrace [c₁.current] = 0 ∧
        countKind .rightBrace [c₁.current] = 1 := by
      simp [countKind, hkind]
    simp only [Account.Leaves, Account.append, Account.ofTaken,
      countKind_append, countOpenBlocks_append, countOpenBlocks_nil]
      at hleaves ⊢
    omega
  opened := h.opened.append nofun

/-- A token that frames nothing. -/
theorem accounts_advance (h : c.current.kind.frames = false) :
    Accounts c (.ofTaken [c.current]) 0 c.advance.rest c.advance.errors := by
  have hne {kind : TokenKind} (hkind : kind.frames = true) :
      c.current.kind ≠ kind := by
    rintro rfl
    rw [h] at hkind
    cases hkind
  have hopening : c.current.kind ≠ .leftBrace := hne rfl
  have hclosing : c.current.kind ≠ .rightBrace := hne rfl
  refine ⟨.advance (hne rfl), by simp [Account.ofTaken], ?_, nofun⟩
  simp [Account.Leaves, Account.ofTaken, countKind, countOpenBlocks, hopening,
    hclosing]

/-- There is an account of the outcome: up to what is left, or up to where
the reader was refused. A block that it was refused in is not yet
reported, but if it would be the first that is, it is there. -/
def Charted (c : Cursor) : EStateM.Result Stop Cursor α → Prop
  | .ok _ c' => ∃ a, Accounts c a 0 c'.rest c'.errors
  | .error (.refused e) c' => ∃ a since,
      e.Refuses since c'.rest ∧
        Accounts c a (if e.fault = .openBlock then 1 else 0)
          (since ++ c'.rest) c'.errors ∧
        OpensFirst c.rest c'.errors [e]
  | .error .exhausted _ => True

/-- There is an account of what the reader does at this cursor. -/
def Charts (r : Reader α) (c : Cursor) : Prop := Charted c (r c)

namespace Charts

-- ============================================================ small steps

/-- What a reader does within an expression makes an account. -/
theorem ofPlain (h : Plain r c) : Charts r c := by
  have hmake {taken left : List Token} {c' : Cursor}
      (hin : ∀ t ∈ taken, t.kind.outside = false)
      (hrest : c.rest = taken ++ left) (herrors : c'.errors = c.errors) :
      Accounts c (.ofTaken taken) 0 left c'.errors := by
    refine ⟨?_, by simp [Account.ofTaken, herrors], ?_, nofun⟩
    · rw [hrest]
      exact .ofTaken fun t ht => TokenKind.ne_end_of_inside (hin t ht)
    -- No block is opened or closed within an expression.
    · have hnone (kind : TokenKind) (hkind : kind.outside = true) :
          countKind kind taken = 0 := by
        refine countKind_eq_zero fun t ht heq => ?_
        rw [← heq, hin t ht] at hkind
        cases hkind
      simp [Account.Leaves, Account.ofTaken, hnone .leftBrace rfl,
        hnone .rightBrace rfl, countOpenBlocks]
  unfold Plain at h
  unfold Charts
  match r c, h with
  | .ok _ c', ⟨taken, h⟩ => exact ⟨_, hmake h.inside h.rest h.errors⟩
  | .error (.refused e) c', ⟨taken, since, h, he, hblock⟩ =>
    refine ⟨.ofTaken taken, since, he, ?_, ?_⟩
    · rw [if_neg hblock]
      refine hmake (fun t ht => h.inside t (List.mem_append_left _ ht)) ?_
        h.errors
      rw [h.rest, List.append_assoc]
    · rintro - _ ⟨⟩ hopen
      exact absurd hopen hblock
  | .error .exhausted _, _ => trivial

/-- What is there at once takes no tokens. -/
theorem pure (a : α) : Charts (pure a) c := ⟨_, .refl c⟩

/-- Refused at the token at the cursor. -/
theorem refuse {fault : SyntaxFault} {pos : Position}
    (hpos : pos = c.current.pos) (hfault : fault.Describes c.current.kind)
    (htarget : fault ≠ .invalidTarget) (hblock : fault ≠ .openBlock) :
    Charts (refuse fault pos : Reader α) c :=
  ofPlain (.refuse hpos hfault htarget hblock)

/-- An account of what was read so far goes before one of what follows. -/
theorem behind {result : EStateM.Result Stop Cursor β}
    (h : Accounts c a 0 c₁.rest c₁.errors) (hresult : Charted c₁ result) :
    Charted c result := by
  match result, hresult with
  | .ok _ _, ⟨_, h'⟩ => exact ⟨_, h.trans h'⟩
  | .error (.refused _) _, ⟨b, since, he, h', hopened⟩ =>
    refine ⟨a.append b, since, he, ?_, fun hnone e he hopen =>
      (hopened hnone e he hopen).of_suffix h.course.suffix⟩
    have hall := h.trans h'
    rwa [Nat.zero_add] at hall
  | .error .exhausted _, _ => trivial

/-- Readers one behind the other. A refusal of the second leaves the account
of the first as it is. -/
theorem bind (h : Charts r c)
    (hf : ∀ a c₁, r c = .ok a c₁ → Charts (f a) c₁) :
    Charts (r >>= f) c := by
  unfold Charts at h ⊢
  rw [Sequencing.bind_apply]
  match hr : r c with
  | .ok a c₁ =>
    rw [hr] at h
    obtain ⟨_, h⟩ := h
    exact behind h (hf a c₁ hr)
  | .error (.refused _) c₁ =>
    rw [hr] at h
    exact h
  | .error .exhausted c₁ => trivial

/-- Readers one after another, each with an account wherever it starts. -/
theorem next (h : Charts r c) (hf : ∀ a c₁, Charts (f a) c₁) :
    Charts (r >>= f) c :=
  h.bind fun a c₁ _ => hf a c₁

/-- What stays within an expression, with what follows it. -/
theorem after (h : ∀ c, Plain r c) (hf : ∀ a c₁, Charts (f a) c₁) :
    Charts (r >>= f) c :=
  (ofPlain (h c)).next hf

/-- What is made of a result is of no account. -/
theorem map {g : α → β} (h : Charts r c) : Charts (g <$> r) c := by
  rw [map_eq_pure_bind]
  exact h.next fun a _ => pure (g a)

/-- Of a choice, only the reader that is chosen is to be charted. -/
theorem ite {p : Prop} [Decidable p] (h : p → Charts r c)
    (h' : ¬p → Charts r' c) : Charts (if p then r else r') c := by
  split
  case isTrue hp => exact h hp
  case isFalse hp => exact h' hp

/-- To look at a token is not to take it. -/
theorem current {f : Token → Reader β} (h : Charts (f c.current) c) :
    Charts (current >>= f) c := h

/-- The same where only its kind is looked at. -/
theorem kind {f : TokenKind → Reader β} (h : Charts (f c.current.kind) c) :
    Charts (kind >>= f) c := h

/-- A token that is no brace and not the end of the text can be taken at once.
Braces are charted with the block that they frame. -/
theorem take {f : Token → Reader β} (h : c.current.kind.frames = false)
    (hf : Charts (f c.current) c.advance) : Charts (take >>= f) c :=
  behind (accounts_advance h) hf

/-- To number a node takes no token. -/
theorem node {f : Node → Reader β} {pos : Position}
    (h : ∀ node c₁, Charts (f node) c₁) : Charts (node pos >>= f) c :=
  next (r := Reader.node pos) ⟨_, .refl c⟩ h

/-- A token that may come is taken, or nothing is. -/
theorem takeIf {f : Bool → Reader β} {wanted : TokenKind}
    (hwanted : wanted.frames = false)
    (htrue : c.current.kind = wanted → Charts (f true) c.advance)
    (hfalse : c.current.kind ≠ wanted → Charts (f false) c) :
    Charts (takeIf wanted >>= f) c := by
  unfold Charts
  rw [takeIf_bind]
  split
  case isTrue hkind =>
    exact behind (accounts_advance (hkind ▸ hwanted)) (htrue hkind)
  case isFalse hkind => exact hfalse hkind

/-- A token that has to come is taken, or the reader is refused at what is
there, with a fault that is not about a block. -/
theorem expect {f : Token → Reader β} {wanted : TokenKind}
    {fault : TokenKind → SyntaxFault} (hwanted : wanted.frames = false)
    (hfault : SyntaxFault.Misses fault wanted)
    (hf : ∀ t c₁, Charts (f t) c₁) : Charts (expect wanted fault >>= f) c := by
  rw [Reader.expect, bind_assoc]
  refine current ?_
  split
  case isTrue hkind => exact take (hkind ▸ hwanted) (hf _ _)
  case isFalse hkind =>
    obtain ⟨hdescribes, htarget, hblock⟩ := hfault _ hkind
    exact bind (refuse rfl hdescribes htarget hblock)
      fun _ _ hrefused => absurd hrefused refuse_ne_ok

end Charts

-- ============================================================== recovery

/-- Reading went on to the end of the outcome, by some account. -/
def Recorded (c : Cursor) : EStateM.Result Stop Cursor α → Prop
  | .ok _ c' => ∃ a, Accounts c a 0 c'.rest c'.errors
  | .error (.refused _) _ => False
  | .error .exhausted _ => True

/-- Reading went on, or the budget was used up. -/
theorem Recorded.ok_or {result : EStateM.Result Stop Cursor α}
    (h : Recorded c result) :
    (∃ b c' a, result = .ok b c' ∧ Accounts c a 0 c'.rest c'.errors) ∨
      ∃ c', result = .error .exhausted c' := by
  cases result with
  | ok b c' =>
    obtain ⟨a, h⟩ := h
    exact .inl ⟨b, c', a, rfl, h⟩
  | error stop c' =>
    cases stop with
    | refused e => exact absurd h not_false
    | exhausted => exact .inr ⟨c', rfl⟩

/-- Recovering, a reader that was refused goes on behind what is
dropped. -/
theorem Charts.recovering {r : Reader Stmt} (h : Charts r c) :
    Recorded c (recovering r c) := by
  unfold Charts at h
  unfold Reader.recovering
  match r c, h with
  | .ok s c₁, h => exact h
  | .error (.refused e) c₁, ⟨a, since, he, h, hopened⟩ =>
    obtain ⟨skipped, hleft, -⟩ := resume_eq c₁.rest
    let b : Account := ⟨since, [e], skipped⟩
    refine ⟨a.append b, h.course.trans ?_, ?_, ?_,
      h.opened.append (h.errors ▸ hopened)⟩
    · have hcourse := Course.recover he hleft .stop
      rwa [List.append_nil, List.append_nil] at hcourse
    · simp [h.errors, b, Account.append]
    · have hleaves := h.leaves
      have hopening := he.countKind_eq_zero (.inl rfl)
      have hclosing := he.countKind_eq_zero (.inr rfl)
      simp only [Account.Leaves, Account.append, b, countKind_append,
        countOpenBlocks_append, countOpenBlocks_singleton, hopening, hclosing]
        at hleaves ⊢
      omega
  | .error .exhausted c₁, _ => trivial

-- ============================================================= statements

section Simple

variable {budget : Nat}

/-- An expression is read without a brace and without an error recorded. -/
theorem charts_expression : Charts (expression budget) c :=
  .ofPlain ((exprsPlain budget).expression c)

/-- The semicolon behind a statement, with what follows it. -/
theorem Charts.ending {f : Token → Reader β} {role : EndRole}
    (hf : ∀ t c₁, Charts (f t) c₁) : Charts (ending role >>= f) c :=
  .expect rfl (SyntaxFault.misses_end role) hf

/-- A statement that holds no other, such as the declaration of a variable, is
a chain of tokens and expressions, and has no braces either. -/
theorem charts_varDecl (hword : c.current.kind.frames = false) :
    Charts (varDecl budget) c := by
  have hrest (word name : Token) (init : Option Expr) (c₁ : Cursor) :
      Charts (do
        let _ ← ending .variableDeclaration
        return Stmt.varDecl (← node word.pos) ⟨name.lexeme, name.pos⟩
          init) c₁ :=
    .ending fun _ _ => .node fun _ _ => .pure _
  exact .take hword (.after (plain_name .binding) fun name c₂ => .takeIf rfl
    (fun _ => .next charts_expression.map fun init => hrest _ name init)
    fun _ => hrest _ name none c₂)

/-- An expression with its semicolon has no braces. -/
theorem charts_exprStmt : Charts (exprStmt budget) c :=
  .current (.next charts_expression fun _ _ =>
    .ending fun _ _ => .node fun _ _ => .pure _)

/-- Nor has a `print`. -/
theorem charts_printStmt (hword : c.current.kind.frames = false) :
    Charts (printStmt budget) c :=
  .take hword (.next charts_expression fun _ _ =>
    .ending fun _ _ => .node fun _ _ => .pure _)

/-- Nor has a `return`, with a value or without. -/
theorem charts_retStmt (hword : c.current.kind.frames = false) :
    Charts (retStmt budget) c := by
  have hrest (word : Token) (value : Option Expr) (c₁ : Cursor) :
      Charts (do
        let _ ← ending .returnValue
        return Stmt.ret (← node word.pos) value) c₁ :=
    .ending fun _ _ => .node fun _ _ => .pure _
  exact .take hword (.kind (.ite (fun _ => hrest _ none _)
    fun _ => .next charts_expression.map fun value => hrest _ value))

/-- The first clause of a `for` is a statement of that kind, or missing. -/
theorem charts_forInit : Charts (forInit budget) c := by
  refine .takeIf rfl (fun _ => .pure none) fun _ => .kind (.ite ?_ ?_)
  · exact fun hkind => .next (charts_varDecl (by rw [hkind]; rfl))
      fun first _ => .pure (some first)
  · exact fun _ => .next charts_exprStmt fun first _ => .pure (some first)

/-- The second clause is an expression, or made up where it is missing. -/
theorem charts_forTest : Charts (forTest budget) c :=
  .current (.ite (fun _ => .node fun _ _ => .pure _)
    fun _ => charts_expression)

/-- The third clause is an expression or missing. -/
theorem charts_forStep : Charts (forStep budget) c :=
  .kind (.ite (fun _ => .pure none)
    fun _ => .next charts_expression fun e _ => .pure (some e))

/-- The trees that a `for` stands for take no tokens. -/
theorem charts_forBody {pos : Position} {step : Option Expr} {body : Stmt} :
    Charts (forBody pos step body) c := by
  cases step with
  | none => exact .pure body
  | some e => exact .node fun _ _ => .node fun _ _ => .pure _

/-- The same for the loop around the body. -/
theorem charts_forLoop {pos : Position} {init : Option Stmt} {test : Expr}
    {body : Stmt} : Charts (forLoop pos init test body) c := by
  refine .node fun node c₁ => ?_
  cases init with
  | none => exact .pure _
  | some first => exact .node fun _ _ => .pure _

end Simple

-- ===================================================== nested statements

/-- Declarations are read on to a token that ends them. -/
def Completed (ends : TokenKind → Bool) (c : Cursor)
    (result : EStateM.Result Stop Cursor α) : Prop :=
  Recorded c result ∧
    ∀ a c', result = .ok a c' → ends c'.current.kind = true

/-- Nothing is said where the budget is used up. -/
theorem Completed.exhausted (ends : TokenKind → Bool) :
    Completed ends c (.error .exhausted c₁ : EStateM.Result Stop Cursor α) := by
  refine ⟨trivial, fun a c' h => ?_⟩
  cases h

/-- With this budget, there is an account of what every reader of
statements does. -/
structure StmtsChart (budget : Nat) : Prop where
  declarations : ∀ ends c, Completed ends c (declarations ends budget c)
  declaration : ∀ c, Recorded c (declaration budget c)
  funDecl : ∀ c, c.current.kind.frames = false → Charts (funDecl budget) c
  statement : ∀ c, Charts (statement budget) c
  condStmt : ∀ c, c.current.kind.frames = false →
    Charts (condStmt budget) c
  loopStmt : ∀ c, c.current.kind.frames = false →
    Charts (loopStmt budget) c
  forStmt : ∀ c, c.current.kind.frames = false → Charts (forStmt budget) c
  braced : ∀ c, c.current.kind = .leftBrace → Charts (braced budget) c

section Nested

variable {budget : Nat} (ih : StmtsChart budget)

include ih

/-- Declarations are read up to a token that ends them, and each is charted,
recoveries included. -/
theorem completed_declarations (ends : TokenKind → Bool) (c : Cursor) :
    Completed ends c (declarations ends (budget + 1) c) := by
  rw [declarations, kind_bind]
  split
  case isTrue hkind =>
    refine ⟨⟨_, .refl c⟩, ?_⟩
    rintro _ _ ⟨⟩
    exact hkind
  case isFalse =>
    rcases (ih.declaration c).ok_or with
      ⟨first, c₁, a, hrun, h₁⟩ | ⟨c₁, hrun⟩
    · rw [bind_of_ok hrun]
      obtain ⟨hothers, hends⟩ := ih.declarations ends c₁
      rcases hothers.ok_or with ⟨others, c₂, b, hrun', h₂⟩ | ⟨c₂, hrun'⟩
      · rw [bind_of_ok hrun']
        refine ⟨⟨a.append b, h₁.trans h₂⟩, ?_⟩
        rintro _ _ ⟨⟩
        exact hends _ _ hrun'
      · rw [Sequencing.bind_of_error hrun']
        exact .exhausted ends
    · rw [Sequencing.bind_of_error hrun]
      exact .exhausted ends

/-- A declaration that is refused has its error recorded, and the tokens
dropped behind it begin where it was refused. -/
theorem recorded_declaration (c : Cursor) :
    Recorded c (declaration (budget + 1) c) := by
  refine Charts.recovering (.kind ?_)
  cases hkind : c.current.kind with
  | kwFun => exact ih.funDecl c (by rw [hkind]; rfl)
  | kwVar => exact charts_varDecl (by rw [hkind]; rfl)
  | _ => exact ih.statement c

/-- A function has the braces of its body. -/
theorem charts_funDecl (hword : c.current.kind.frames = false) :
    Charts (funDecl (budget + 1)) c := by
  have hrest (word name : Token) (params : List Name) (c₁ : Cursor) :
      Charts (functionRest budget word name params) c₁ := by
    refine .after (plain_closing .parameters) fun _ c₂ => .current
      (.ite (fun hkind => ?_)
        fun hkind => .refuse rfl ⟨rfl, hkind⟩ nofun nofun)
    exact .next (ih.braced c₂ hkind) fun _ _ => .node fun _ _ =>
      .node fun _ _ => .pure _
  rw [funDecl_succ]
  exact .take hword (.after (plain_name .function) fun name c₂ =>
    .after (plain_opening .functionName) fun _ c₃ =>
      .kind (.ite (fun _ => hrest _ name [] c₃) fun _ =>
        .after (plain_parameters budget) fun params => hrest _ name params))

/-- A statement is charted as the one that its first word tells. -/
theorem charts_statement (c : Cursor) : Charts (statement (budget + 1)) c := by
  refine .kind ?_
  cases hkind : c.current.kind with
  | kwFor => exact ih.forStmt c (by rw [hkind]; rfl)
  | kwIf => exact ih.condStmt c (by rw [hkind]; rfl)
  | kwPrint => exact charts_printStmt (by rw [hkind]; rfl)
  | kwReturn => exact charts_retStmt (by rw [hkind]; rfl)
  | kwWhile => exact ih.loopStmt c (by rw [hkind]; rfl)
  | leftBrace => exact .next (ih.braced c hkind) fun _ _ => .pure _
  | _ => exact charts_exprStmt

/-- An `if` has the braces of its branches. -/
theorem charts_condStmt (hword : c.current.kind.frames = false) :
    Charts (condStmt (budget + 1)) c := by
  have hrest (word : Token) (test : Expr) (yes : Stmt) (no : Option Stmt)
      (c₁ : Cursor) :
      Charts (do return Stmt.cond (← node word.pos) test yes no) c₁ :=
    .node fun _ _ => .pure _
  exact .take hword (.after (plain_opening .ifWord) fun _ _ =>
    .next charts_expression fun test _ =>
    .after (plain_closing .ifCondition) fun _ _ =>
    .next (ih.statement _) fun yes c₁ => .takeIf rfl
      (fun _ => .next (ih.statement _).map fun no => hrest _ test yes no)
      fun _ => hrest _ test yes none c₁)

/-- A `while` has those of its body. -/
theorem charts_loopStmt (hword : c.current.kind.frames = false) :
    Charts (loopStmt (budget + 1)) c :=
  .take hword (.after (plain_opening .whileWord) fun _ _ =>
    .next charts_expression fun _ _ =>
    .after (plain_closing .whileCondition) fun _ _ =>
    .next (ih.statement _) fun _ _ => .node fun _ _ => .pure _)

/-- A `for` has those of its body, which is read behind all clauses. -/
theorem charts_forStmt (hword : c.current.kind.frames = false) :
    Charts (forStmt (budget + 1)) c :=
  .take hword (.after (plain_opening .forWord) fun _ _ =>
    .next charts_forInit fun _ _ =>
    .next charts_forTest fun _ _ => .ending fun _ _ =>
    .next charts_forStep fun _ _ =>
    .after (plain_closing .forClauses) fun _ _ =>
    .next (ih.statement _) fun _ _ => .next charts_forBody fun _ _ =>
    charts_forLoop)

/-- The braces of a block are a pair, or the block is reported as open, unless
something else was refused inside before. -/
theorem charts_braced (hopening : c.current.kind = .leftBrace) :
    Charts (braced (budget + 1)) c := by
  unfold Charts
  rw [braced, take_bind]
  obtain ⟨hbody, hends⟩ := ih.declarations endsBlock c.advance
  rcases hbody.ok_or with ⟨body, c₁, a, hrun, h⟩ | ⟨c₁, hrun⟩
  · have h₁ := (accounts_opening hopening).trans h
    rw [bind_of_ok hrun, takeIf_bind]
    split
    case isTrue hclosing => exact ⟨_, h₁.closing hclosing⟩
    case isFalse hopen =>
      have hend : c₁.current.kind = .endOfText := by
        simpa [endsBlock, hopen] using hends _ _ hrun
      rw [c₁.current_eq] at hend
      refine ⟨_, [], .here (by simp) ⟨?_, hend⟩, h₁, fun hnone _ _ _ => ?_⟩
      · rw [← c₁.current_eq]
      · obtain ⟨⟨-, body, hrest, hbody⟩, -⟩ :=
          (readsStmts budget).declarations hrun hnone
        rw [Cursor.rest_of_kind hopening (by decide), hrest]
        show HoldsOpenBlock ([] ++ c.current :: (body ++ c₁.rest))
        exact .intro hopening hbody hend
  · rw [Sequencing.bind_of_error hrun]
    trivial

end Nested

/-- All readers of statements are charted, by induction on the budget. -/
theorem stmtsChart (budget : Nat) : StmtsChart budget := by
  induction budget with
  | zero =>
    constructor
    case declarations => exact fun ends _ => .exhausted ends
    all_goals intros; trivial
  | succ budget ih =>
    exact {
      declarations := completed_declarations ih
      declaration := recorded_declaration ih
      funDecl := fun _ => charts_funDecl ih
      statement := charts_statement ih
      condStmt := fun _ => charts_condStmt ih
      loopStmt := fun _ => charts_loopStmt ih
      forStmt := fun _ => charts_forStmt ih
      braced := fun _ => charts_braced ih }

end Reader

-- ============================================================== readings

open Reader

/-- A text is read from its first token to its end, and there is an
account of it: the errors are those that were met, and no brace that was
taken is left over. -/
theorem declarations_course {ts : List Token} {eof : Token}
    (heof : eof.kind = .endOfText) (hts : ∀ t ∈ ts, t.kind ≠ .endOfText)
    (n : Nat) :
    ∃ program id a,
      declarations endsProgram (nestingBudget (ts ++ [eof]))
          ⟨ts ++ [eof], n, []⟩ = .ok program ⟨[eof], id, a.met⟩ ∧
        Course (ts ++ [eof]) a [eof] ∧ a.Leaves 0 := by
  obtain ⟨program, id, errors, hrun, -⟩ := declarations_reach_end heof hts n
  obtain ⟨hrecorded, -⟩ := (stmtsChart (nestingBudget (ts ++ [eof])))
    |>.declarations endsProgram ⟨ts ++ [eof], n, []⟩
  rw [hrun] at hrecorded
  obtain ⟨a, hcourse, rfl, hleaves, -⟩ := hrecorded
  exact ⟨program, id, a, hrun, hcourse, hleaves⟩

/-- If the first error of a text is that a block is open, the text holds
one. -/
theorem holdsOpenBlock_of_first {ts left : List Token} {budget n id : Nat}
    {program : List Stmt} {errors : List SyntaxError} {e : SyntaxError}
    (hrun : declarations endsProgram budget ⟨ts, n, []⟩
      = .ok program ⟨left, id, errors⟩)
    (hfirst : errors.head? = some e) (hopen : e.fault = .openBlock) :
    HoldsOpenBlock ts := by
  obtain ⟨hrecorded, -⟩ :=
    (stmtsChart budget).declarations endsProgram ⟨ts, n, []⟩
  rw [hrun] at hrecorded
  obtain ⟨a, -, herrors, -, hopened⟩ := hrecorded
  refine hopened rfl e ?_ hopen
  rw [List.nil_append] at herrors
  rw [← herrors, hfirst]
  rfl

end Lox
