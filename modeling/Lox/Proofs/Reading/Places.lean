/-
Where things stand in the text. A place is a line and a column, and from
there on the text can be read again (`textAt`). At the place of a token
the text begins with its spelling, and behind a name it does not go on
with the name. At the place of a node stands the token that its reader
took for it: the name of a variable and of its assignment, the sign of
an operator, the opening parenthesis of a group and of a call
(`Expr.mark`).
-/
import Lox.Proofs.Reading.Scan
import Lox.Proofs.Reading.Words
import Lox.Proofs.Tree.Parts

namespace Lox

-- ================================================================ places

/-- A text without so many of its lines. -/
def dropLines : Nat → List Char → List Char
  | 0, cs => cs
  | lines + 1, cs => dropLines lines ((cs.dropWhile (· != '\n')).drop 1)

/-- A text from a line and a column on, both counted from one. -/
def textAt (source : String) (line column : Nat) : List Char :=
  (dropLines (line - 1) source.toList).drop (column - 1)

theorem dropLines_succ_newline (lines : Nat) (cs : List Char) :
    dropLines (lines + 1) ('\n' :: cs) = dropLines lines cs := by
  simp [dropLines]

theorem dropLines_succ_of_ne {c : Char} (hc : c ≠ '\n') (lines : Nat)
    (cs : List Char) :
    dropLines (lines + 1) (c :: cs) = dropLines (lines + 1) cs := by
  simp [dropLines, hc]

/-- Behind some characters, so many lines down, the column is counted
from the last newline among them, or goes on if there is none. -/
theorem drop_dropLines_after (p : Position) (before text : List Char) :
    let first := if '\n' ∈ before then 1 else p.column
    first ≤ (p.after before).column ∧
      (dropLines (before.count '\n') (before ++ text)).drop
        ((p.after before).column - first) = text := by
  induction before generalizing p with
  | nil => simp [dropLines]
  | cons c cs ih =>
    obtain ⟨hle, hdrop⟩ := ih (p.advance c)
    by_cases hc : c = '\n'
    · subst hc
      have hcolumn : (p.advance '\n').column = 1 := rfl
      rw [hcolumn, ite_self] at hle hdrop
      simp only [List.mem_cons, true_or, if_true, List.count_cons_self,
        List.cons_append, dropLines_succ_newline, Position.after_cons]
      exact ⟨hle, hdrop⟩
    · have hcolumn : (p.advance c).column = p.column + 1 := by
        simp [Position.advance, hc]
      have hcount : (c :: cs).count '\n' = cs.count '\n' :=
        List.count_cons_of_ne hc
      rw [hcolumn] at hle hdrop
      simp only [List.mem_cons, Ne.symm hc, false_or, hcount,
        List.cons_append, Position.after_cons]
      -- The column goes on from here only if no newline is left.
      by_cases hlines : '\n' ∈ cs
      · obtain ⟨lines, hlines'⟩ : ∃ lines, cs.count '\n' = lines + 1 :=
          Nat.exists_eq_succ_of_ne_zero
            (Nat.ne_of_gt (List.count_pos_iff.2 hlines))
        rw [if_pos hlines] at hle hdrop ⊢
        rw [hlines'] at hdrop ⊢
        exact ⟨hle, by rw [dropLines_succ_of_ne hc]; exact hdrop⟩
      · have hnone : cs.count '\n' = 0 := List.count_eq_zero.2 hlines
        rw [if_neg hlines] at hle hdrop ⊢
        rw [hnone] at hdrop ⊢
        refine ⟨by omega, ?_⟩
        obtain ⟨more, hmore⟩ := Nat.exists_eq_add_of_le hle
        have hdiff :
            ((p.advance c).after cs).column - p.column = more + 1 := by
          omega
        have hdiff' : ((p.advance c).after cs).column - (p.column + 1)
            = more := by
          omega
        rw [hdiff'] at hdrop
        rw [hdiff]
        exact hdrop

/-- At the place where one arrives by reading some characters stands what
is behind them. -/
theorem textAt_after {source : String} {before text : List Char}
    (h : source.toList = before ++ text) :
    textAt source (Position.start.after before).line
      (Position.start.after before).column = text := by
  obtain ⟨-, hdrop⟩ := drop_dropLines_after .start before text
  have hline : (Position.start.after before).line - 1 = before.count '\n' := by
    rw [Position.line_after]
    simp [Position.start]
  have hfirst : (if '\n' ∈ before then 1 else Position.start.column) = 1 := by
    simp [Position.start]
  rw [hfirst] at hdrop
  rw [textAt, h, hline]
  exact hdrop

-- ================================================================ tokens

/-- The text begins with this name, which is no keyword and does not go
on. -/
def BeginsWithName (text : List Char) (name : String) : Prop :=
  wordKind name = .identifier ∧ ∃ first more rest,
    name.toList = first :: more ∧ startsName first = true ∧
      (∀ c ∈ more, continuesName c = true) ∧ text = first :: more ++ rest ∧
      ∀ c ∈ rest.head?, continuesName c = false

/-- The text begins with what a token says that is no string. -/
def BeginsWithWord (text : List Char) (word : Word) : Prop :=
  match word.1 with
  | .identifier => BeginsWithName text word.2
  | .string => True
  | _ => word.2.toList <+: text

theorem punctuation?_spelling {c : Char} {kind : TokenKind}
    (h : punctuation? c = some kind) : [c] = kind.spelling.toList := by
  unfold punctuation? at h
  split at h <;> cases h <;> rfl

theorem extensible?_spelling {c : Char} {alone extended : TokenKind}
    (h : extensible? c = some (alone, extended)) :
    [c] = alone.spelling.toList ∧ [c, '='] = extended.spelling.toList := by
  unfold extensible? at h
  split at h <;> cases h <;> exact ⟨rfl, rfl⟩

/-- A word of a kind that is always spelled alike is the spelling. -/
theorem wordKind_spelling {word : String} {kind : TokenKind}
    (h : wordKind word = kind) (hkind : kind ≠ .identifier) :
    word = kind.spelling := by
  unfold wordKind at h
  split at h <;> subst h <;> first | rfl | exact absurd rfl hkind

theorem wordKind_ne_varying (word : String) :
    wordKind word ≠ .string ∧ wordKind word ≠ .number := by
  unfold wordKind
  split <;> exact ⟨nofun, nofun⟩

/-- What a token at the front is: a string or a number, a name that ends
where it could not go on, or what its kind is always spelled as. -/
theorem front_token {c : Char} {rest : List Char} {kind : TokenKind}
    {more : Nat} (h : front c rest = .token kind more) :
    kind = .string ∨ kind = .number ∨
      (kind = .identifier ∧
        wordKind (String.ofList (c :: rest.take more)) = .identifier ∧
        startsName c = true ∧
        (∀ d ∈ rest.take more, continuesName d = true) ∧
        ∀ d ∈ (rest.drop more).head?, continuesName d = false) ∨
      (kind.varies = false ∧ c :: rest.take more = kind.spelling.toList) := by
  -- The cases are the ways to cut a token off, in the order in which they are
  -- tried.
  unfold front at h
  split at h
  · cases h
  split at h
  · next hslash =>
    subst hslash
    split at h <;> cases h
    exact .inr (.inr (.inr ⟨rfl, rfl⟩))
  split at h
  · next hkind =>
    cases h
    have hspelling := punctuation?_spelling hkind
    refine .inr (.inr (.inr ⟨?_, hspelling⟩))
    unfold punctuation? at hkind
    split at hkind <;> cases hkind <;> rfl
  split at h
  · next alone extended hkinds =>
    obtain ⟨halone, hextended⟩ := extensible?_spelling hkinds
    have hvaries : alone.varies = false ∧ extended.varies = false := by
      unfold extensible? at hkinds
      split at hkinds <;> cases hkinds <;> exact ⟨rfl, rfl⟩
    split at h
    · next hhead =>
      cases h
      obtain ⟨others, rfl⟩ := List.head?_eq_some_iff.1 hhead
      exact .inr (.inr (.inr ⟨hvaries.2, hextended⟩))
    · cases h
      exact .inr (.inr (.inr ⟨hvaries.1, halone⟩))
  split at h
  · unfold stringFront at h
    simp only at h
    split at h <;> cases h
    exact .inl rfl
  split at h
  · unfold numberFront at h
    simp only at h
    split at h
    · split at h <;> cases h
      exact .inr (.inl rfl)
    · cases h
      exact .inr (.inl rfl)
  split at h
  · next hstarts =>
    -- A name takes all characters that go on with it.
    have htext := List.takeWhile_append_dropWhile (p := continuesName)
      (l := rest)
    unfold wordFront at h
    simp only at h
    injection h with hkind hmore
    have htake : rest.take more = rest.takeWhile continuesName := by
      rw [← hmore]
      exact (List.prefix_iff_eq_take.1 (List.takeWhile_prefix _)).symm
    have hdrop : rest.drop more = rest.dropWhile continuesName := by
      have hleft : (rest.takeWhile continuesName
          ++ rest.dropWhile continuesName).drop
            (rest.takeWhile continuesName).length
          = rest.dropWhile continuesName := List.drop_left
      rw [htext, hmore] at hleft
      exact hleft
    rw [← htake] at hkind
    by_cases hname : kind = .identifier
    · refine .inr (.inr (.inl ⟨hname, hkind.trans hname, hstarts, ?_, ?_⟩))
      · rw [htake]
        exact fun d hd => List.all_eq_true.1 List.all_takeWhile d hd
      · rw [hdrop]
        intro d hd
        have hstop := List.head?_dropWhile_not continuesName rest
        rw [Option.mem_def.1 hd] at hstop
        exact hstop
    · refine .inr (.inr (.inr ⟨?_, ?_⟩))
      · obtain ⟨hstring, hnumber⟩ :=
          wordKind_ne_varying (String.ofList (c :: rest.take more))
        rw [hkind] at hstring hnumber
        cases kind <;> first | rfl | contradiction
      · rw [← wordKind_spelling hkind hname, String.toList_ofList]
  · cases h

/-- The text at the place of a token begins with what the token says. -/
def Token.StandsIn (t : Token) (source : String) : Prop :=
  BeginsWithWord (textAt source t.pos.line t.pos.column) t.word

/-- A token is cut off a text that begins with what it says. -/
theorem front_beginsWithWord {c : Char} {rest : List Char}
    {kind : TokenKind} {more : Nat} (h : front c rest = .token kind more)
    (p : Position) :
    BeginsWithWord (c :: rest)
      (Token.word ⟨kind, String.ofList (c :: rest.take more), p⟩) := by
  have hprefix : c :: rest.take more <+: c :: rest :=
    List.prefix_cons_inj c |>.2 (List.take_prefix more rest)
  rcases front_token h with rfl | rfl | ⟨rfl, hkind, hstarts, hmore, hstop⟩
    | ⟨hvaries, hspelling⟩
  · trivial
  · simpa [BeginsWithWord, Token.word, Token.text] using hprefix
  · refine ⟨hkind, c, rest.take more, rest.drop more, ?_, hstarts, hmore, ?_,
      hstop⟩
    · exact String.toList_ofList
    · simp
  · rw [Token.word_of_kind rfl hvaries]
    rw [hspelling] at hprefix
    cases kind <;> first | exact hprefix | cases hvaries

/-- Every token of a text, its end included, stands in the text. -/
theorem scanFrom_standsIn {source : String} (p : Position) (cs : List Char)
    {tokens : List Token} (h : scanFrom p cs = .ok tokens)
    {before : List Char} (hsource : source.toList = before ++ cs)
    (hp : p = Position.start.after before) :
    ∀ t ∈ tokens, t.StandsIn source := by
  -- What has been read is carried along, for the places are counted through it.
  fun_induction scanFrom p cs generalizing tokens before with
  | case1 p =>
    cases h
    exact List.forall_mem_singleton.2 List.nil_prefix
  | case2 p c rest more hfront ih =>
    refine @ih _ h (before ++ c :: rest.take more) ?_ ?_
    · rw [hsource, List.append_assoc, List.cons_append,
        List.take_append_drop]
    · rw [hp, ← Position.after_append]
  | case3 p c rest kind more hfront ih =>
    cases hscan : scanFrom (p.after (c :: rest.take more))
        (rest.drop more) with
    | error e =>
      rw [hscan] at h
      cases h
    | ok others =>
      rw [hscan] at h
      cases h
      refine List.forall_mem_cons.2 ⟨?_, ?_⟩
      · unfold Token.StandsIn
        rw [hp, textAt_after hsource]
        exact front_beginsWithWord hfront _
      · refine @ih _ hscan (before ++ c :: rest.take more) ?_ ?_
        · rw [hsource, List.append_assoc, List.cons_append,
            List.take_append_drop]
        · rw [hp, ← Position.after_append]
  | case4 => cases h

theorem scan_standsIn {source : String} {tokens : List Token}
    (h : scan source = .ok tokens) : ∀ t ∈ tokens, t.StandsIn source :=
  scanFrom_standsIn .start source.toList h
    (show source.toList = [] ++ source.toList from rfl) rfl

-- ================================================================= trees

/-- What the token says at which an expression stands. A literal may have
none, since a `for` without a condition makes one up. -/
def Expr.mark : Expr → Option Word
  | .literal _ _ => none
  | .var _ name | .assign _ name _ => some (.identifier, name)
  | .group _ _ | .call _ _ _ _ => some TokenKind.leftParen.word
  | .unary _ op _ => some op.kind.word
  | .binary _ op _ _ => some op.kind.word
  | .logical _ op _ _ => some op.kind.word

/-- The text at the place of an expression begins with its mark. -/
def Expr.StandsIn (e : Expr) (source : String) : Prop :=
  ∀ word ∈ e.mark,
    BeginsWithWord (textAt source e.node.pos.line e.node.pos.column) word

/-- An expression stands where a token does that says its mark. -/
theorem Expr.standsIn_of_token {e : Expr} {source : String} {t : Token}
    (ht : t.StandsIn source) (hpos : e.node.pos = t.pos)
    (hmark : e.mark = some t.word) : e.StandsIn source := by
  intro word hword
  rw [hmark] at hword
  cases hword
  rw [hpos]
  exact ht

/-- Tokens that spell the name of a variable are one, and it says the
name. -/
theorem Spells.var_token {n n' : Nat} {ts : List Token} {rank : Rank}
    {node : Node} {name : String}
    (h : Spells n ts (.expr rank (.var node name)) n') :
    ∃ t, ts = [t] ∧ t.word = (.identifier, name) ∧ node.pos = t.pos := by
  generalize hp : Phrase.expr rank (.var node name) = p at h
  induction h generalizing rank with
  | var hkind =>
    cases hp
    exact ⟨_, rfl, Token.word_identifier hkind, rfl⟩
  | lift _ _ ih =>
    cases hp
    exact ih rfl
  | @join _ _ _ _ _ _ _ _ op =>
    cases op <;> cases hp
  | _ => cases hp

/-- The property holds throughout the trees of a phrase. -/
def Phrase.Throughout (P : Expr → Prop) : Phrase → Prop
  | expr _ e | test e => e.Throughout P
  | args es => Expr.AllThroughout P es
  | params _ => True
  | maybe e => ∀ x ∈ e, x.Throughout P
  | varDecl s | exprStmt s | stmt _ s | decl s => s.Throughout P
  | clause first => ∀ s ∈ first, s.Throughout P
  | braced _ body | decls body => Stmt.AllThroughout P body

theorem throughout_forTree {P : Expr → Prop} {pos : Position}
    {init : Option Stmt} {test : Expr} {step : Option Expr} {body : Stmt}
    {n : Nat} (hinit : ∀ s ∈ init, s.Throughout P)
    (htest : test.Throughout P) (hstep : ∀ e ∈ step, e.Throughout P)
    (hbody : body.Throughout P) :
    (forTree pos init test step body n).1.Throughout P := by
  cases init <;> cases step <;>
    simp_all [forTree, forBodyTree, forLoopTree, Stmt.Throughout,
      Stmt.AllThroughout]

theorem Expr.standsIn_literal {node : Node} {value : Literal}
    {source : String} : (Expr.literal node value).StandsIn source :=
  nofun

/-- What tokens spell that stand in a text stands there as well. -/
theorem Spells.standsIn {n n' : Nat} {ts : List Token} {p : Phrase}
    {source : String} (h : Spells n ts p n')
    (hts : ∀ t ∈ ts, t.StandsIn source) :
    p.Throughout (·.StandsIn source) := by
  induction h with
  | literal | noTest => exact Expr.standsIn_literal
  | @var n t hkind =>
    exact Expr.standsIn_of_token (hts t (by simp)) rfl
      (congrArg some (Token.word_identifier hkind).symm)
  | @group _ _ _ opening _ _ hopen _ _ ih =>
    exact ⟨Expr.standsIn_of_token (hts opening (by simp)) rfl
      (congrArg some (Token.word_of_kind hopen rfl).symm),
      ih fun t ht => hts t (by simp [ht])⟩
  | @call _ _ _ _ _ opening _ _ _ _ hopen _ _ ih₁ ih₂ =>
    exact ⟨Expr.standsIn_of_token (hts opening (by simp)) rfl
      (congrArg some (Token.word_of_kind hopen rfl).symm),
      ih₁ fun t ht => hts t (by simp [ht]),
      ih₂ fun t ht => hts t (by simp [ht])⟩
  | @unary _ _ _ sign op _ hop _ ih =>
    have hsign := Token.word_of_kind (UnaryOp.ofKind?_eq_some.1 hop)
      (UnaryOp.varies_kind op)
    exact ⟨Expr.standsIn_of_token (hts sign (by simp)) rfl
      (congrArg some hsign.symm), ih fun t ht => hts t (by simp [ht])⟩
  | @join _ _ _ _ _ _ _ sign op left right _ hop _ _ ih₁ ih₂ =>
    have hsign := Token.word_of_kind (Level.connective?_eq_some.1 hop).2
      (Connective.varies_kind op)
    have hleft := ih₁ fun t ht => hts t (by simp [ht])
    have hright := ih₂ fun t ht => hts t (by simp [ht])
    cases op <;>
      exact ⟨Expr.standsIn_of_token (hts sign (by simp)) rfl
        (congrArg some hsign.symm), hleft, hright⟩
  | @assign _ _ _ _ _ first _ _ _ _ hfirst _ _ _ ih =>
    obtain ⟨t, heq, hword, -⟩ := hfirst.var_token
    obtain ⟨rfl, rfl⟩ := List.cons_eq_cons.1 heq
    exact ⟨Expr.standsIn_of_token (hts first (by simp)) rfl
      (congrArg some hword.symm), ih fun t ht => hts t (by simp [ht])⟩
  | lift _ _ ih => exact ih hts
  | noArgs | noParams | oneParam | moreParams | nil => trivial
  | oneArg _ ih => exact ⟨ih hts, trivial⟩
  | moreArgs _ _ _ ih₁ ih₂ =>
    exact ⟨ih₁ fun t ht => hts t (by simp [ht]),
      ih₂ fun t ht => hts t (by simp [ht])⟩
  | absent | varDecl | noClause => rintro _ ⟨⟩
  | present _ ih | varClause _ ih | exprClause _ ih =>
    rintro _ ⟨⟩
    exact ih hts
  | varInit _ _ _ _ _ ih =>
    rintro _ ⟨⟩
    exact ih fun t ht => hts t (by simp [ht])
  | exprStmt _ _ ih =>
    exact ih fun t ht => hts t
      (by rcases List.mem_cons.1 ht with rfl | ht <;> simp [*])
  | someTest _ _ ih | braced _ _ _ ih | print _ _ _ ih | ret _ _ _ ih =>
    exact ih fun t ht => hts t (by simp [ht])
  | expression _ ih | block _ ih | «variable» _ ih | statement _ ih =>
    exact ih hts
  | cond _ _ _ _ _ ih₁ ih₂ | loop _ _ _ _ _ ih₁ ih₂ =>
    exact ⟨ih₁ fun t ht => hts t (by simp [ht]),
      ih₂ fun t ht => hts t (by simp [ht])⟩
  | condElse _ _ _ _ _ _ _ ih₁ ih₂ ih₃ =>
    exact ⟨ih₁ fun t ht => hts t (by simp [ht]),
      ih₂ fun t ht => hts t (by simp [ht]),
      ih₃ fun t ht => hts t (by simp [ht])⟩
  | forLoop _ _ _ _ _ _ _ ih₁ ih₂ ih₃ ih₄ =>
    exact throughout_forTree (ih₁ fun t ht => hts t (by simp [ht]))
      (ih₂ fun t ht => hts t (by simp [ht]))
      (ih₃ fun t ht => hts t (by simp [ht]))
      (ih₄ fun t ht => hts t (by simp [ht]))
  | function _ _ _ _ _ _ _ ih =>
    exact ih fun t ht => hts t (by simp [ht])
  | cons _ _ ih₁ ih₂ =>
    exact ⟨ih₁ fun t ht => hts t (by simp [ht]),
      ih₂ fun t ht => hts t (by simp [ht])⟩

/-- Throughout a program, the expressions stand in its text. -/
theorem readProgram_standsIn {source : String} {n n' : Nat}
    {program : List Stmt} (h : readProgram source n = (.ok program, n')) :
    Stmt.AllThroughout (·.StandsIn source) program := by
  obtain ⟨ts, eof, hscan, -, hs⟩ := readProgram_eq_ok_iff.1 h
  exact hs.standsIn fun t ht =>
    scan_standsIn hscan t (List.mem_append_left _ ht)

end Lox
