/-
A faulty statement and what stands behind it. A declaration of a variable
and a simple statement go no further than their semicolon, nor does a
conditional or a loop with a simple statement in it; and a function is
refused before the semicolon if it has no brace. So if there is a fault,
then before the semicolon or at it: reading is taken up again behind the
semicolon, and finds there what it would have found in a text of its own.
Such a statement is reported once, and what stands behind it is reported
as if it stood alone (`errors_behind_faulty`).

# How it is shown

`Heeds` says of a reader that before a semicolon it is done behind it or
refused before it, and that in the second case it has not looked at what
is behind. What stays within an expression can stand in front of such a
reader, since it does not come to the semicolon (`Heeds.after`), and the
reader of the semicolon is one (`Heeds.ending`). The kinds of statement
are put together from these two.
-/
import Lox.Proofs.Reading.Consecutive
import Lox.Proofs.Reading.Inside

namespace Lox

theorem TokenKind.outside_eq_false {kind : TokenKind}
    (h : kind ∉ [semicolon, leftBrace, rightBrace, endOfText])
    (hword : kind.opensStatement = false) : kind.outside = false := by
  cases kind <;> first | exact hword | simp at h

namespace Reader

variable {α β : Type} {r r' : Reader α} {mark eof : Token}
  {left : List Token} {budget : Nat}

/-- Between the tokens and the end stands a mark. The reader is done behind
the mark, or it is refused before it, whatever is behind. -/
def HeedsAt (mark eof : Token) (r : Reader α) (left : List Token) : Prop :=
  ∀ n errors,
    match r ⟨left ++ [mark, eof], n, errors⟩ with
    | .ok _ c => c.rest = [eof] ∧ c.errors = errors
    | .error (.refused e) c => ∃ left', left' <:+ left ∧
        ∀ rest, r ⟨left ++ mark :: rest, n, errors⟩
          = .error (.refused e) ⟨left' ++ mark :: rest, c.nextId, errors⟩
    | .error .exhausted _ => True

/-- At whatever of the tokens the reader begins. -/
def Heeds (mark eof : Token) (r : Reader α) (left : List Token) : Prop :=
  ∀ left', left' <:+ left → HeedsAt mark eof r left'

-- ============================================================ small steps

theorem Heeds.exhausted :
    Heeds mark eof (throw .exhausted : Reader α) left :=
  fun _ _ _ _ => trivial

theorem Heeds.refuse (fault : SyntaxFault) (pos : Position) :
    Heeds mark eof (refuse fault pos : Reader α) left :=
  fun left' _ _ _ => ⟨left', List.suffix_refl left', fun _ => rfl⟩

theorem Heeds.ite {p : Prop} [Decidable p] (h : Heeds mark eof r left)
    (h' : Heeds mark eof r' left) :
    Heeds mark eof (if p then r else r') left := by
  split
  · exact h
  · exact h'

/-- What is decided by the token at the cursor. -/
theorem HeedsAt.congr (hr : ∀ rest n errors,
      r ⟨left ++ mark :: rest, n, errors⟩
        = r' ⟨left ++ mark :: rest, n, errors⟩)
    (h : HeedsAt mark eof r' left) : HeedsAt mark eof r left := by
  intro n errors
  have hstep := h n errors
  simp only [hr]
  exact hstep

/-- The kind of the token that is met before the mark, or of the mark. -/
theorem HeedsAt.kind {f : TokenKind → Reader β}
    (h : HeedsAt mark eof (f (kindAt (left ++ [mark]))) left) :
    HeedsAt mark eof (kind >>= f) left := by
  refine .congr (fun rest n errors => ?_) h
  rw [kind_mk]
  cases left <;> rfl

/-- The token that is met before the mark, or the mark. -/
theorem HeedsAt.current {f : Token → Reader β}
    (h : HeedsAt mark eof (f (tokenAt (left ++ [mark]))) left) :
    HeedsAt mark eof (current >>= f) left := by
  refine .congr (fun rest n errors => ?_) h
  rw [current_bind, Cursor.current_eq]
  cases left <;> rfl

/-- A word at the beginning. -/
theorem HeedsAt.take {word : Token} {f : Token → Reader β}
    (hword : word.kind ≠ .endOfText) (h : Heeds mark eof (f word) left) :
    HeedsAt mark eof (take >>= f) (word :: left) := by
  intro n errors
  have hstep := h left (List.suffix_refl left) n errors
  simp only [List.cons_append, take_cons hword]
  match hrun : f word ⟨left ++ [mark, eof], n, errors⟩ with
  | .ok a c => simpa only [hrun] using hstep
  | .error (.refused e) c =>
    simp only [hrun] at hstep
    obtain ⟨left', hsuffix, hrefused⟩ := hstep
    exact ⟨left', hsuffix.trans (List.suffix_cons word left), hrefused⟩
  | .error .exhausted c => trivial

/-- What is taken within an expression ends before a mark that is not part
of one, and what is behind the mark is not looked at. -/
theorem Inside.before_mark {taken : List Token} {n : Nat}
    {errors : List SyntaxError} {c : Cursor}
    (hmark : mark.kind.outside = true)
    (h : Inside r ⟨left ++ [mark, eof], n, errors⟩ taken c) :
    ∃ left' id, left = taken ++ left' ∧
      c = ⟨left' ++ [mark, eof], id, errors⟩ ∧
      ∀ rest, r ⟨left ++ mark :: rest, n, errors⟩
        = leaving (left' ++ mark :: rest)
            (r ⟨left ++ [mark, eof], n, errors⟩) := by
  -- The mark is not taken, so what is taken stands in front of it.
  obtain ⟨left', hleft, hrest⟩ : ∃ left', left = taken ++ left' ∧
      c.rest = left' ++ [mark, eof] := by
    rcases List.append_eq_append_iff.1 h.rest with
      ⟨others, htaken, hothers⟩ | ⟨others, hleft, hothers⟩
    · cases others with
      | nil =>
        exact ⟨[], by simpa using htaken.symm, by simpa using hothers.symm⟩
      | cons t others =>
        obtain ⟨rfl, -⟩ := List.cons.inj hothers
        rw [h.inside mark (by simp [htaken])] at hmark
        cases hmark
    · exact ⟨others, hleft, hothers⟩
  refine ⟨left', c.nextId, hleft, ?_, fun rest => ?_⟩
  · have herrors : c.errors = errors := h.errors
    rw [← hrest, ← herrors]
  · rw [← h.ahead (left' ++ mark :: rest) (by rw [hrest]; cases left' <;> rfl),
      hleft, List.append_assoc]

/-- What stays within an expression does not come to the mark. -/
theorem Heeds.after {f : α → Reader β} (hmark : mark.kind.outside = true)
    (hr : ∀ c, Plain r c) (hf : ∀ a, Heeds mark eof (f a) left) :
    Heeds mark eof (r >>= f) left := by
  intro left₁ hsuffix n errors
  have hplain := hr ⟨left₁ ++ [mark, eof], n, errors⟩
  unfold Plain at hplain
  rw [Sequencing.bind_apply]
  match hrun : r ⟨left₁ ++ [mark, eof], n, errors⟩ with
  | .ok a c₁ =>
    rw [hrun] at hplain
    obtain ⟨taken, h⟩ := hplain
    obtain ⟨left₂, id, rfl, rfl, hahead⟩ := h.before_mark hmark
    have hleft := List.suffix_append taken left₂
    have hnext := hf a left₂ (hleft.trans hsuffix) id errors
    simp only [Sequencing.andThen]
    match hrun' : f a ⟨left₂ ++ [mark, eof], id, errors⟩ with
    | .ok b c₂ => simpa only [hrun'] using hnext
    | .error (.refused e) c₂ =>
      simp only [hrun'] at hnext
      obtain ⟨left₃, hsuffix', hrefused⟩ := hnext
      refine ⟨left₃, hsuffix'.trans hleft, fun rest => ?_⟩
      have hstep := hahead rest
      rw [hrun] at hstep
      rw [bind_of_ok hstep]
      exact hrefused rest
    | .error .exhausted c₂ => trivial
  | .error (.refused e) c₁ =>
    rw [hrun] at hplain
    obtain ⟨taken, since, h, -⟩ := hplain
    obtain ⟨left₂, id, rfl, rfl, hahead⟩ := h.before_mark hmark
    refine ⟨left₂, List.suffix_append _ left₂, fun rest => ?_⟩
    have hstep := hahead rest
    rw [hrun] at hstep
    exact Sequencing.bind_of_error hstep
  | .error .exhausted c₁ => trivial

/-- A reader that only gives numbers to nodes. -/
def Numbers (r : Reader α) : Prop :=
  ∀ c, ∃ a id, r c = .ok a { c with nextId := id }

/-- The mark is taken, and then there is nothing left to read. -/
theorem Heeds.ending {f : Token → Reader β} {role : EndRole}
    (hmark : mark.kind = .semicolon)
    (hleft : ∀ t ∈ left, t.kind ≠ .semicolon) (hf : ∀ t, Numbers (f t)) :
    Heeds mark eof (ending role >>= f) left := by
  intro left' hsuffix n errors
  cases left' with
  | nil =>
    obtain ⟨b, id, hrun⟩ := hf mark ⟨[eof], n, errors⟩
    simp only [Reader.ending, List.nil_append, expect_cons hmark (by decide),
      hrun, and_self]
  | cons t others =>
    have hkind : t.kind ≠ .semicolon := hleft t (hsuffix.mem (by simp))
    have hrun (rest : List Token) :
        (Reader.ending role >>= f) ⟨t :: others ++ mark :: rest, n, errors⟩
          = .error (.refused ⟨.noEnd role t.kind, t.pos⟩)
              ⟨t :: others ++ mark :: rest, n, errors⟩ := by
      rw [Reader.ending, expect_bind]
      exact if_neg hkind
    rw [hrun]
    exact ⟨t :: others, List.suffix_refl _, hrun⟩

/-- What heeds the mark may be followed by what does nothing at the end. -/
theorem Heeds.before_end {f : α → Reader β} (hr : Heeds mark eof r left)
    (hf : ∀ a n errors, ∃ b id,
      f a ⟨[eof], n, errors⟩ = .ok b ⟨[eof], id, errors⟩) :
    Heeds mark eof (r >>= f) left := by
  intro left' hsuffix n errors
  have hstep := hr left' hsuffix n errors
  rw [Sequencing.bind_apply]
  match hrun : r ⟨left' ++ [mark, eof], n, errors⟩ with
  | .ok a ⟨rest, id, errors'⟩ =>
    simp only [hrun] at hstep
    obtain ⟨rfl, rfl⟩ := hstep
    obtain ⟨b, id', hrun'⟩ := hf a id errors'
    simp only [Sequencing.andThen, hrun', and_self]
  | .error (.refused e) c =>
    simp only [hrun] at hstep
    obtain ⟨left'', hsuffix', hrefused⟩ := hstep
    exact ⟨left'', hsuffix', fun rest =>
      Sequencing.bind_of_error (hrefused rest)⟩
  | .error .exhausted c => trivial

-- ============================================================= statements

section Statements

variable (hmark : mark.kind = .semicolon)

include hmark

theorem outside_of_semicolon : mark.kind.outside = true := by
  rw [hmark]
  rfl

section Simple

variable (hleft : ∀ t ∈ left, t.kind ≠ .semicolon)

include hleft

theorem heeds_exprStmt : Heeds mark eof (exprStmt budget) left :=
  have hout := outside_of_semicolon hmark
  .after hout plain_current fun _ =>
    .after hout (exprsPlain budget).expression fun _ =>
      .ending hmark hleft fun _ _ => ⟨_, _, rfl⟩

theorem heedsAt_printStmt {word : Token} (hword : word.kind ≠ .endOfText) :
    HeedsAt mark eof (printStmt budget) (word :: left) :=
  .take hword (.after (outside_of_semicolon hmark)
    (exprsPlain budget).expression fun _ =>
      .ending hmark hleft fun _ _ => ⟨_, _, rfl⟩)

theorem heedsAt_retStmt {word : Token} (hword : word.kind ≠ .endOfText) :
    HeedsAt mark eof (retStmt budget) (word :: left) := by
  have hout := outside_of_semicolon hmark
  have hrest (value : Option Expr) :
      Heeds mark eof (do
        let _ ← ending .returnValue
        return Stmt.ret (← node word.pos) value) left :=
    .ending hmark hleft fun _ _ => ⟨_, _, rfl⟩
  exact .take hword (.after hout plain_kind fun found =>
    .ite (hrest none) (.after hout
      (fun c => ((exprsPlain budget).expression c).map) hrest))

theorem heedsAt_varDecl {word : Token} (hword : word.kind ≠ .endOfText) :
    HeedsAt mark eof (varDecl budget) (word :: left) := by
  have hout := outside_of_semicolon hmark
  have hrest (name : Token) (init : Option Expr) :
      Heeds mark eof (do
        let _ ← ending .variableDeclaration
        return Stmt.varDecl (← node word.pos) ⟨name.lexeme, name.pos⟩
          init) left :=
    .ending hmark hleft fun _ _ => ⟨_, _, rfl⟩
  exact .take hword (.after hout (plain_name .binding) fun name =>
    .after hout (plain_takeIf rfl) fun sign => .ite
      (.after hout (fun c => ((exprsPlain budget).expression c).map)
        (hrest name))
      (hrest name none))

end Simple

/-- Tokens that go on with a simple statement: none is a semicolon or
opens a statement or a block. -/
theorem heeds_statement (hleft : ∀ t ∈ left, t.kind.outside = false) :
    Heeds mark eof (statement budget) left := by
  cases budget with
  | zero => exact .exhausted
  | succ budget =>
    intro left' hsuffix
    have hsimple : Heeds mark eof (exprStmt budget) left := by
      refine heeds_exprStmt hmark fun t ht hkind => ?_
      have hinside := hleft t ht
      rw [hkind] at hinside
      cases hinside
    refine .kind ?_
    have hkind : kindAt (left' ++ [mark]) = .semicolon ∨
        (kindAt (left' ++ [mark])).outside = false := by
      cases left' with
      | nil => exact .inl hmark
      | cons t others => exact .inr (hleft t (hsuffix.mem (by simp)))
    split
    case h_7 => exact hsimple left' hsuffix
    all_goals
      rename_i heq
      rw [heq] at hkind
      rcases hkind with hkind | hkind <;> cases hkind

theorem heedsAt_condStmt {word : Token} (hword : word.kind ≠ .endOfText)
    (heof : eof.kind = .endOfText)
    (hleft : ∀ t ∈ left, t.kind.outside = false) :
    HeedsAt mark eof (condStmt budget) (word :: left) := by
  cases budget with
  | zero => exact Heeds.exhausted _ (List.suffix_refl _)
  | succ budget =>
    have hout := outside_of_semicolon hmark
    refine .take hword (.after hout (plain_opening .ifWord) fun _ =>
      .after hout (exprsPlain budget).expression fun test =>
        .after hout (plain_closing .ifCondition) fun _ =>
          .before_end (heeds_statement hmark hleft) fun yes n errors => ?_)
    -- at the end there is no other branch
    have hother : (Cursor.mk [eof] n errors).current.kind ≠ .kwElse := by
      rw [kind_current, kindAt_cons, heof]
      nofun
    rw [takeIf_bind, if_neg hother]
    exact ⟨_, _, rfl⟩

theorem heedsAt_loopStmt {word : Token} (hword : word.kind ≠ .endOfText)
    (hleft : ∀ t ∈ left, t.kind.outside = false) :
    HeedsAt mark eof (loopStmt budget) (word :: left) := by
  cases budget with
  | zero => exact Heeds.exhausted _ (List.suffix_refl _)
  | succ budget =>
    have hout := outside_of_semicolon hmark
    exact .take hword (.after hout (plain_opening .whileWord) fun _ =>
      .after hout (exprsPlain budget).expression fun test =>
        .after hout (plain_closing .whileCondition) fun _ =>
          .before_end (heeds_statement hmark hleft) fun body n errors =>
            ⟨_, _, rfl⟩)

/-- Without a brace a function has no body. -/
theorem heedsAt_funDecl {word : Token} (hword : word.kind ≠ .endOfText)
    (hleft : ∀ t ∈ left, t.kind ≠ .leftBrace) :
    HeedsAt mark eof (funDecl budget) (word :: left) := by
  cases budget with
  | zero => exact Heeds.exhausted _ (List.suffix_refl _)
  | succ budget =>
    have hout := outside_of_semicolon hmark
    have hbody (word name : Token) (params : List Name) :
        Heeds mark eof (functionRest budget word name params) left := by
      refine .after hout (plain_closing .parameters) fun _ left' hsuffix => ?_
      -- What is found in place of a body is the mark, or stands in front of it.
      have hfound : (tokenAt (left' ++ [mark])).kind ≠ .leftBrace := by
        cases left' with
        | nil =>
          show mark.kind ≠ .leftBrace
          rw [hmark]
          nofun
        | cons t others => exact hleft t (hsuffix.mem (by simp))
      refine .current ?_
      rw [if_neg hfound]
      exact Heeds.refuse _ _ left' hsuffix
    rw [funDecl_succ]
    exact .take hword (.after hout (plain_name .function) fun name =>
      .after hout (plain_opening .functionName) fun _ =>
        .after hout plain_kind fun found => .ite (hbody word name [])
          (.after hout (plain_parameters budget) (hbody word name)))

/-- What is read as a declaration, if there is no fault in it. -/
def declared (budget : Nat) : Reader Stmt := do
  match ← kind with
  | .kwFun => funDecl budget
  | .kwVar => varDecl budget
  | _ => statement budget

/-- A statement that begins with some word, if that is neither `for` nor a
brace. -/
theorem heedsAt_statement {word : Token} (heof : eof.kind = .endOfText)
    (hword : word.kind ∉ [.kwFor, .semicolon, .leftBrace, .endOfText])
    (hleft : ∀ t ∈ left, t.kind.outside = false) :
    HeedsAt mark eof (statement budget) (word :: left) := by
  have hkinds {kind : TokenKind} (hkind : kind.outside = true) :
      ∀ t ∈ left, t.kind ≠ kind := by
    rintro t ht rfl
    rw [hleft t ht] at hkind
    cases hkind
  have hend : word.kind ≠ .endOfText := by
    rintro heq
    simp [heq] at hword
  cases budget with
  | zero => exact Heeds.exhausted _ (List.suffix_refl _)
  | succ budget =>
    refine .kind ?_
    rw [List.cons_append, kindAt_cons]
    split
    case h_2 => exact heedsAt_condStmt hmark hend heof hleft
    case h_3 => exact heedsAt_printStmt hmark (hkinds rfl) hend
    case h_4 => exact heedsAt_retStmt hmark (hkinds rfl) hend
    case h_5 => exact heedsAt_loopStmt hmark hend hleft
    case h_7 =>
      refine heeds_exprStmt hmark (List.forall_mem_cons.2
        ⟨fun heq => ?_, hkinds rfl⟩) _ (List.suffix_refl _)
      simp [heq] at hword
    all_goals
      rename_i heq
      simp [heq] at hword

/-- The tokens of a statement, if none is a semicolon or a brace, if none
but the first opens a statement, and if the first is not `for`. -/
theorem heedsAt_declared (heof : eof.kind = .endOfText)
    (hleft : ∀ t ∈ left, t.kind ∉ [.semicolon, .leftBrace, .rightBrace,
      .endOfText])
    (hwords : ∀ t ∈ left.tail, t.kind.opensStatement = false)
    (hfor : ∀ t ∈ left.head?, t.kind ≠ .kwFor) :
    HeedsAt mark eof (declared budget) left := by
  refine .kind ?_
  cases left with
  | nil =>
    rw [List.nil_append, kindAt_cons, hmark]
    exact heeds_statement hmark (by simp) _ (List.suffix_refl _)
  | cons word left =>
    obtain ⟨hword, hothers⟩ := List.forall_mem_cons.1 hleft
    have hinside : ∀ t ∈ left, t.kind.outside = false := fun t ht =>
      TokenKind.outside_eq_false (hothers t ht) (hwords t ht)
    rw [List.cons_append, kindAt_cons]
    split
    case h_1 heq =>
      exact heedsAt_funDecl hmark (by rw [heq]; nofun) fun t ht heq => by
        simpa [heq] using hothers t ht
    case h_2 heq =>
      exact heedsAt_varDecl hmark
        (fun t ht heq => by simpa [heq] using hothers t ht)
        (by rw [heq]; nofun)
    case h_3 =>
      refine heedsAt_statement hmark heof ?_ hinside
      have hfor' : word.kind ≠ .kwFor := hfor word rfl
      simp_all

end Statements

-- ============================================================== recovery

/-- Behind what is left of a faulty statement, reading is taken up again
behind its semicolon. -/
theorem resume_semicolon {rest : List Token} (hmark : mark.kind = .semicolon)
    (hleft : ∀ t ∈ left, t.kind ∉ [.semicolon, .leftBrace, .rightBrace,
      .endOfText])
    (hwords : ∀ t ∈ left.tail, t.kind.opensStatement = false) :
    resume (left ++ mark :: rest) = rest := by
  induction left with
  | nil => simp [resume, hmark]
  | cons t left ih =>
    obtain ⟨ht, hothers⟩ := List.forall_mem_cons.1 hleft
    have hnext := ih hothers fun u hu => hwords u (List.mem_of_mem_tail hu)
    have hend : t.kind ≠ .endOfText := fun heq => ht (by simp [heq])
    have hsemicolon : t.kind ≠ .semicolon := fun heq => ht (by simp [heq])
    have hstep (next : Token) (more : List Token)
        (hopens : next.kind.opensStatement = false) :
        resume (t :: next :: more) = resume (next :: more) := by
      rw [resume, if_neg hend, if_neg hsemicolon, if_neg (by simp [hopens])]
    cases left with
    | nil => exact (hstep mark rest (by rw [hmark]; rfl)).trans hnext
    | cons next left =>
      exact (hstep next _ (hwords next (by simp))).trans hnext

/-- What is left of tokens of which only the first may open a statement. -/
theorem opensStatement_of_suffix {left' : List Token}
    (hwords : ∀ t ∈ left.tail, t.kind.opensStatement = false)
    (hsuffix : left' <:+ left) :
    ∀ t ∈ left'.tail, t.kind.opensStatement = false := by
  cases left with
  | nil => simp [List.suffix_nil.1 hsuffix]
  | cons t left =>
    rcases List.suffix_cons_iff.1 hsuffix with rfl | hsuffix
    · exact hwords
    · exact fun u hu => hwords u (hsuffix.mem (List.mem_of_mem_tail hu))

/-- With a greater budget, the same is read as a declaration. -/
theorem persists_declared {budget budget' : Nat} (hle : budget ≤ budget') :
    Persists (declared budget) (declared budget') := by
  refine .bind .kind fun found => ?_
  split
  · exact (stmtsPersist hle).funDecl
  · exact persists_varDecl hle
  · exact (stmtsPersist hle).statement

section Declarations

variable {tokens rest : List Token} {n id : Nat} {errors : List SyntaxError}
  (hkind : kindAt tokens ≠ .endOfText)

include hkind

/-- Behind a declaration that is read, others are. -/
theorem declarations_of_read {s : Stmt} {c : Cursor}
    (h : declared budget ⟨tokens, n, errors⟩ = .ok s c) :
    declarations endsProgram (budget + 2) ⟨tokens, n, errors⟩
      = (List.cons s <$> declarations endsProgram (budget + 1)) c := by
  have hgoes : endsProgram (kindAt tokens) ≠ true := by
    simpa [endsProgram] using hkind
  have hread : declaration (budget + 1) ⟨tokens, n, errors⟩
      = .ok (some s) c := by
    show recovering (declared budget) _ = _
    rw [recovering, h]
  rw [declarations, kind_mk, if_neg hgoes, bind_of_ok hread,
    map_eq_pure_bind]
  rfl

/-- Declarations that are read have a first one, for which there was budget
enough. -/
theorem declared_ne_exhausted {program : List Stmt} {c : Cursor}
    (h : declarations endsProgram (budget + 2) ⟨tokens, n, errors⟩
      = .ok program c) (c' : Cursor) :
    declared budget ⟨tokens, n, errors⟩ ≠ .error .exhausted c' := by
  intro hfirst
  have hgoes : endsProgram (kindAt tokens) ≠ true := by
    simpa [endsProgram] using hkind
  have hread : declaration (budget + 1) ⟨tokens, n, errors⟩
      = .error .exhausted c' := by
    show recovering (declared budget) _ = _
    rw [recovering, hfirst]
  rw [declarations, kind_mk, if_neg hgoes,
    Sequencing.bind_of_error hread] at h
  cases h

/-- Behind a declaration that is refused, reading is taken up again. -/
theorem declarations_of_refused {e : SyntaxError}
    (h : declared budget ⟨tokens, n, errors⟩
      = .error (.refused e) ⟨rest, id, errors⟩) :
    declarations endsProgram (budget + 2) ⟨tokens, n, errors⟩
      = declarations endsProgram (budget + 1)
          ⟨resume rest, id, errors ++ [e]⟩ := by
  have hgoes : endsProgram (kindAt tokens) ≠ true := by
    simpa [endsProgram] using hkind
  have hread : declaration (budget + 1) ⟨tokens, n, errors⟩
      = .ok none ⟨resume rest, id, errors ++ [e]⟩ := by
    show recovering (declared budget) _ = _
    rw [recovering, h]
  rw [declarations, kind_mk, if_neg hgoes, bind_of_ok hread]
  exact congrFun (bind_pure _) _

end Declarations

end Reader

-- ============================================================== readings

open Reader

section Reading

variable {ts tokens : List Token} {mark eof : Token} {n : Nat}
  (hmark : mark.kind = .semicolon)
  (hts : ∀ t ∈ ts, t.kind ∉ [.semicolon, .leftBrace, .rightBrace,
    .endOfText])
  (hwords : ∀ t ∈ ts.tail, t.kind.opensStatement = false)

include hmark hts

theorem kindAt_ne_end (rest : List Token) :
    kindAt (ts ++ mark :: rest) ≠ .endOfText := by
  cases ts with
  | nil => simp [hmark]
  | cons t ts =>
    intro heq
    rw [List.cons_append, kindAt_cons] at heq
    exact hts t (by simp) (by simp [heq])

include hwords

/-- A statement that is rejected with its semicolon alone is refused as a
declaration, and its only error is the one that it is refused with. -/
theorem declared_of_faulty {d : Diagnostics SyntaxError}
    (heof : eof.kind = .endOfText)
    (hfor : ∀ t ∈ ts.head?, t.kind ≠ .kwFor)
    (hfaulty : (parse (ts ++ [mark, eof]) n).result = .error d) :
    ∃ budget id left, nestingBudget (ts ++ [mark, eof]) = budget + 2 ∧
      left <:+ ts ∧ d.others = [] ∧
      ∀ rest, declared budget ⟨ts ++ mark :: rest, n, []⟩
        = .error (.refused d.first) ⟨left ++ mark :: rest, id, []⟩ := by
  obtain ⟨budget, hbudget⟩ : ∃ budget,
      nestingBudget (ts ++ [mark, eof]) = budget + 2 :=
    ⟨nestingBudget (ts ++ [mark, eof]) - 2, by simp only [nestingBudget]; omega⟩
  have hend : ∃ t ∈ ts ++ [mark, eof], t.kind = .endOfText :=
    ⟨eof, by simp, heof⟩
  obtain ⟨program, rest, id, errors, hread⟩ := declarations_run hend n
  have hrun := hread [] _ (Nat.le_refl _)
  have herrors : errors = d.toList := by
    have hparse := congrArg Parsed.errors (parse_eq_of hrun)
    rw [Parsed.errors_of, Parsed.errors, hfaulty] at hparse
    exact hparse.symm
  have hlast (id : Nat) (errors : List SyntaxError) :
      declarations endsProgram (budget + 1) ⟨[eof], id, errors⟩
        = .ok [] ⟨[eof], id, errors⟩ :=
    declarations_of_ends (by rw [kind_current, kindAt_cons, heof]; rfl)
  have hheeds : HeedsAt mark eof (declared budget) ts :=
    heedsAt_declared hmark heof hts hwords hfor
  replace hheeds := hheeds n []
  have hbegins := kindAt_ne_end hmark hts [eof]
  rw [hbudget] at hrun
  cases hfirst : declared budget ⟨ts ++ [mark, eof], n, []⟩ with
  | ok s c =>
    -- read without a fault, it would be accepted
    obtain ⟨rest', id', errors'⟩ := c
    simp only [hfirst] at hheeds
    obtain ⟨rfl, rfl⟩ := hheeds
    rw [declarations_of_read hbegins hfirst, map_eq_pure_bind,
      bind_of_ok (hlast id' [])] at hrun
    cases hrun
    cases herrors
  | error stop c =>
    cases stop with
    | exhausted => exact absurd hfirst (declared_ne_exhausted hbegins hrun c)
    | refused e =>
      simp only [hfirst] at hheeds
      obtain ⟨left, hsuffix, hrefused⟩ := hheeds
      have hresume : resume (left ++ [mark, eof]) = [eof] :=
        resume_semicolon hmark (fun t ht => hts t (hsuffix.mem ht))
          (opensStatement_of_suffix hwords hsuffix)
      rw [declarations_of_refused hbegins (hrefused [eof]), hresume,
        hlast] at hrun
      cases hrun
      obtain ⟨rfl, hothers⟩ : e = d.first ∧ [] = d.others :=
        List.cons.inj herrors
      exact ⟨budget, c.nextId, left, hbudget, hsuffix, hothers.symm,
        hrefused⟩

/-- Behind a statement that is refused, the declarations are read that
stand there, with one error met before. -/
theorem declarations_behind_refused {budget more id : Nat}
    {left rest : List Token} {e : SyntaxError} (hle : budget ≤ more)
    (hsuffix : left <:+ ts)
    (hrefused : declared budget ⟨ts ++ mark :: rest, n, []⟩
      = .error (.refused e) ⟨left ++ mark :: rest, id, []⟩)
    (hend : ∃ t ∈ rest, t.kind = .endOfText) :
    declarations endsProgram (more + 2) ⟨ts ++ mark :: rest, n, []⟩
      = declarations endsProgram (more + 1) ⟨rest, id, [e]⟩ := by
  have hended : (Cursor.mk (ts ++ mark :: rest) n []).Ended := by
    obtain ⟨t, ht, hkind⟩ := hend
    exact ⟨t, by simp [ht], hkind⟩
  have hread : declared more ⟨ts ++ mark :: rest, n, []⟩
      = .error (.refused e) ⟨left ++ mark :: rest, id, []⟩ := by
    rcases (persists_declared hle).eq_or hended with hsame | ⟨c, hused⟩
    · rw [hsame, hrefused]
    · rw [hrefused] at hused
      cases hused
  rw [declarations_of_refused (kindAt_ne_end hmark hts rest) hread,
    resume_semicolon hmark (fun t ht => hts t (hsuffix.mem ht))
      (opensStatement_of_suffix hwords hsuffix)]
  rfl

end Reading

/-- A statement that is at fault is reported once. It is any tokens with a
semicolon behind them, if none of them is a semicolon or a brace, if none
but the first opens a statement, and if the first is not `for`. The text
behind it has the errors that it has alone. -/
theorem errors_behind_faulty {ts tokens : List Token} {mark eof : Token}
    {n : Nat} {d : Diagnostics SyntaxError} (hmark : mark.kind = .semicolon)
    (heof : eof.kind = .endOfText)
    (hts : ∀ t ∈ ts, t.kind ∉ [.semicolon, .leftBrace, .rightBrace,
      .endOfText])
    (hwords : ∀ t ∈ ts.tail, t.kind.opensStatement = false)
    (hfor : ∀ t ∈ ts.head?, t.kind ≠ .kwFor)
    (hfaulty : (parse (ts ++ [mark, eof]) n).result = .error d)
    (hend : ∃ t ∈ tokens, t.kind = .endOfText) :
    d.others = [] ∧ ∀ m m', (parse (ts ++ mark :: tokens) m).errors
      = d.first :: (parse tokens m').errors := by
  obtain ⟨budget, id, left, hbudget, hsuffix, hothers, hrefused⟩ :=
    declared_of_faulty hmark hts hwords heof hfor hfaulty
  refine ⟨hothers, fun m m' => ?_⟩
  obtain ⟨others, rest, id', errors, hmore⟩ := declarations_run hend id
  obtain ⟨more, hmore'⟩ : ∃ more,
      nestingBudget (ts ++ mark :: tokens) = more + 2 :=
    ⟨nestingBudget (ts ++ mark :: tokens) - 2,
      by simp only [nestingBudget]; omega⟩
  have hpos : 0 < tokens.length := by
    obtain ⟨t, ht, -⟩ := hend
    exact List.length_pos_of_mem ht
  have hle : budget ≤ more ∧ nestingBudget tokens ≤ more + 1 := by
    simp only [nestingBudget, List.length_append, List.length_cons,
      List.length_nil] at hbudget hmore' ⊢
    omega
  have hall : declarations endsProgram (nestingBudget (ts ++ mark :: tokens))
      ⟨ts ++ mark :: tokens, n, []⟩
      = .ok others ⟨rest, id', [d.first] ++ errors⟩ := by
    rw [hmore', declarations_behind_refused hmark hts hwords hle.1 hsuffix
      (hrefused tokens) hend]
    exact hmore [d.first] _ hle.2
  rw [errors_parse_eq _ m n, errors_parse_eq tokens m' id,
    parse_eq_of hall, parse_eq_of (hmore [] _ (Nat.le_refl _))]
  simp only [Parsed.errors_of, List.nil_append, List.singleton_append]

/-- An assignment to a sum, which is refused behind its value, and behind
it another faulty statement. -/
theorem errors_behind_faulty_assignment :
    let one : Token := ⟨.number, "1", .start⟩
    let mark : Token := ⟨.semicolon, ";", .start⟩
    let eof : Token := ⟨.endOfText, "", .start⟩
    let ts : List Token :=
      [⟨.kwPrint, "print", .start⟩, one, ⟨.plus, "+", .start⟩, one,
        ⟨.equal, "=", .start⟩, one]
    let tokens : List Token := [⟨.kwVar, "var", .start⟩, mark, eof]
    (parse (ts ++ [mark, eof]) 0).result
        = .error ⟨⟨.invalidTarget, .start⟩, []⟩ ∧
      (parse (ts ++ mark :: tokens) 0).errors
        = [⟨.invalidTarget, .start⟩, ⟨.noName .binding .semicolon, .start⟩] :=
    by
  intro one mark eof ts tokens
  have hfaulty : (parse (ts ++ [mark, eof]) 0).result
      = .error ⟨⟨.invalidTarget, .start⟩, []⟩ := rfl
  refine ⟨hfaulty, ?_⟩
  rw [(errors_behind_faulty rfl rfl (by decide) (by decide) (by decide)
    hfaulty ⟨eof, by decide, rfl⟩).2 0 0]
  rfl

end Lox
